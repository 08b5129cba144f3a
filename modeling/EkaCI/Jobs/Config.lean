import EkaCI.Lib.Json

/-! The configuration of a repository and the jobs in it. The configuration of a single job
is stored with its jobsets, as the job alone and not as a part of a whole configuration. -/

namespace EkaCI

open Lib

structure SizeCheck where
  maxIncreasePercent : ℚ
  baseBranch : String
  deriving DecidableEq

structure PassthruTestsConfig where
  enable : Bool
  deriving DecidableEq

/-- `ci_config::Job`. -/
structure ConfigJob where
  file : String
  allowEvalFailures : Bool
  caches : List String
  sizeCheck : Option SizeCheck
  passthruTests : Option PassthruTestsConfig
  deriving DecidableEq

/-- `ci_config::Check`. -/
structure ConfigCheck where
  shell : Option String
  shellNix : Bool
  command : String
  allowNetwork : Bool

/-- `ci_config::Skill`. -/
structure ConfigSkill where
  promptFile : String
  model : Option String
  advisory : Bool

/-- The `enable` fields of the checks and of the packages. -/
structure FlakeConfig where
  checks : Bool
  packages : Bool

structure PackageChangeSummaryConfig where
  enabled : Bool
  maxPackagesListed : Nat
  includeRebuildOnly : Bool

structure RebuildImpactConfig where
  enabled : Bool
  maxTopBlastRadius : Nat
  computeFullBlastRadius : Bool

/-- The maps are listed with their keys. -/
structure CIConfig where
  jobs : List (String × ConfigJob)
  checks : List (String × ConfigCheck)
  skills : List (String × ConfigSkill)
  flake : Option FlakeConfig
  packageChangeSummary : Option PackageChangeSummaryConfig
  rebuildImpact : Option RebuildImpactConfig

open Json

/-! Every record is read from an object; nothing writes one as an array. -/

def readFlag (absent : Bool) (name : String) (members : Members) : Option Bool :=
  field [name] (some absent) getBool members

namespace SizeCheck

def toJson (check : SizeCheck) : Json :=
  .obj [("max_increase_percent", .float check.maxIncreasePercent), ("base_branch", .str check.baseBranch)]

def fromJson (value : Json) : Option SizeCheck := do
  let members ← getMembers value
  let maxIncreasePercent ← field ["max_increase_percent"] none getNumber members
  let baseBranch ← field ["base_branch"] (some "main") getStr members
  return { maxIncreasePercent, baseBranch }

theorem reads : Reads fromJson toJson := fun _ => rfl

end SizeCheck

namespace PassthruTestsConfig

def toJson (config : PassthruTestsConfig) : Json := .obj [("enable", .bool config.enable)]

def fromJson (value : Json) : Option PassthruTestsConfig := do
  let members ← getMembers value
  let enable ← readFlag false "enable" members
  return { enable }

theorem reads : Reads fromJson toJson := fun _ => rfl

end PassthruTestsConfig

namespace ConfigJob

def toMembers (job : ConfigJob) : Members :=
  [("file", .str job.file), ("allow_eval_failures", .bool job.allowEvalFailures),
    ("caches", .arr (job.caches.map .str)), ("size_check", ofOption SizeCheck.toJson job.sizeCheck),
    ("passthru_tests", ofOption PassthruTestsConfig.toJson job.passthruTests)]

def toJson (job : ConfigJob) : Json := .obj job.toMembers

def fromJson (value : Json) : Option ConfigJob := do
  let members ← getMembers value
  let file ← field ["file"] none getStr members
  let allowEvalFailures ← field ["allow_eval_failures", "allow-eval-failures"] (some true) getBool members
  let caches ← field ["caches"] (some []) (getList getStr) members
  let sizeCheck ← field ["size_check"] (some none) (getOption SizeCheck.fromJson) members
  let passthruTests ← field ["passthru_tests"] (some none) (getOption PassthruTestsConfig.fromJson) members
  return { file, allowEvalFailures, caches, sizeCheck, passthruTests }

theorem reads : Reads fromJson toJson := by
  intro job
  have file : field ["file"] none getStr job.toMembers = some job.file := field_present reads_str rfl
  have allowEvalFailures : field ["allow_eval_failures", "allow-eval-failures"] (some true) getBool job.toMembers =
      some job.allowEvalFailures :=
    field_present reads_bool rfl
  have caches : field ["caches"] (some []) (getList getStr) job.toMembers = some job.caches :=
    field_present (reads_list reads_str) rfl
  have sizeCheck : field ["size_check"] (some none) (getOption SizeCheck.fromJson) job.toMembers = some job.sizeCheck :=
    field_present (reads_option SizeCheck.reads nofun) rfl
  have passthruTests : field ["passthru_tests"] (some none) (getOption PassthruTestsConfig.fromJson) job.toMembers =
      some job.passthruTests :=
    field_present (reads_option PassthruTestsConfig.reads nofun) rfl
  simp only [fromJson, toJson, getMembers, Option.bind_eq_bind, Option.bind_some, file, allowEvalFailures, caches,
    sizeCheck, passthruTests]
  rfl

end ConfigJob

def ConfigCheck.fromJson (value : Json) : Option ConfigCheck := do
  let members ← getMembers value
  let shell ← field ["shell"] (some none) (getOption getStr) members
  let shellNix ← readFlag false "shell_nix" members
  let command ← field ["command"] none getStr members
  let allowNetwork ← readFlag false "allow_network" members
  return { shell, shellNix, command, allowNetwork }

def ConfigSkill.fromJson (value : Json) : Option ConfigSkill := do
  let members ← getMembers value
  let promptFile ← field ["prompt_file"] none getStr members
  let model ← field ["model"] (some none) (getOption getStr) members
  let advisory ← readFlag false "advisory" members
  return { promptFile, model, advisory }

def FlakeConfig.fromJson (value : Json) : Option FlakeConfig := do
  let members ← getMembers value
  let part value := (getMembers value).bind (readFlag false "enable")
  let checks ← field ["checks"] (some false) part members
  let packages ← field ["packages"] (some false) part members
  return { checks, packages }

def PackageChangeSummaryConfig.fromJson (value : Json) : Option PackageChangeSummaryConfig := do
  let members ← getMembers value
  let enabled ← readFlag true "enabled" members
  let maxPackagesListed ← field ["max_packages_listed"] (some 100) getU64 members
  let includeRebuildOnly ← readFlag false "include_rebuild_only" members
  return { enabled, maxPackagesListed, includeRebuildOnly }

def RebuildImpactConfig.fromJson (value : Json) : Option RebuildImpactConfig := do
  let members ← getMembers value
  let enabled ← readFlag true "enabled" members
  let maxTopBlastRadius ← field ["max_top_blast_radius"] (some 5) getU64 members
  let computeFullBlastRadius ← readFlag false "compute_full_blast_radius" members
  return { enabled, maxTopBlastRadius, computeFullBlastRadius }

namespace CIConfig

def fromJson (value : Json) : Option CIConfig := do
  let members ← getMembers value
  let jobs ← field ["jobs"] (some []) (getMap ConfigJob.fromJson) members
  let checks ← field ["checks"] (some []) (getMap ConfigCheck.fromJson) members
  let skills ← field ["skills"] (some []) (getMap ConfigSkill.fromJson) members
  let flake ← field ["flake"] (some none) (getOption FlakeConfig.fromJson) members
  let packageChangeSummary ←
    field ["package_change_summary"] (some none) (getOption PackageChangeSummaryConfig.fromJson) members
  let rebuildImpact ← field ["rebuild_impact"] (some none) (getOption RebuildImpactConfig.fromJson) members
  return { jobs, checks, skills, flake, packageChangeSummary, rebuildImpact }

theorem fromJson_job (job : ConfigJob) : fromJson job.toJson = some ⟨[], [], [], none, none, none⟩ := by
  rfl

end CIConfig

end EkaCI
