import EkaCI.Lib.Lines
import EkaCI.Nix.DrvIdentifier
import EkaCI.Scheduler.PlatformQueue

/-! The arguments of a build, which name the machine that it is to run on, and what nix
reads from them. The arguments reach nix as they are, without a shell in between. -/

namespace EkaCI

/-- A line of the machines file. -/
structure RemoteBuilder where
  uri : String
  platforms : List String
  identityFile : Option String
  maxJobs : Nat
  speedFactor : Nat
  supportedFeatures : List String
  mandatoryFeatures : List String
  remotePublicKey : Option String

structure QueuedBuilder extends Builder where
  platform : String

namespace QueuedBuilder

def localFromEnv (features : List String) (platform : String) : QueuedBuilder where
  isLocal := true
  maxJobs := 40
  remoteUri := none
  builderName := "localhost"
  supportedFeatures := features
  mandatoryFeatures := []
  platform := platform

def localFromEnvFod (features : List String) (platform : String) : QueuedBuilder where
  isLocal := true
  maxJobs := 10
  remoteUri := none
  builderName := "localhost-fod"
  supportedFeatures := features
  mandatoryFeatures := []
  platform := platform

/-- `'{uri} {platforms}'`, with the quotes. -/
def remoteName (remote : RemoteBuilder) : String :=
  String.ofList ('\'' :: remote.uri.toList ++ ' ' :: List.intercalate [','] (remote.platforms.map String.toList) ++ ['\''])

def fromRemoteBuilder (platform : String) (remote : RemoteBuilder) : QueuedBuilder where
  isLocal := false
  maxJobs := remote.maxJobs
  remoteUri := some remote.uri
  builderName := remoteName remote
  supportedFeatures := remote.supportedFeatures
  mandatoryFeatures := remote.mandatoryFeatures
  platform := platform

def buildArgs (builder : QueuedBuilder) : List String :=
  if builder.isLocal then ["--builders", "''"] else ["--builders", builder.builderName]

/-- The words of the command that is spawned for a drv. -/
def commandLine (builder : QueuedBuilder) (drv : DrvIdentifier) : List String :=
  ["nix-build", drv.storePath] ++ builder.buildArgs

end QueuedBuilder

/-- A machine as nix knows it: the first two fields, and those that are left. -/
structure Machine where
  storeUri : List Char
  platforms : List (List Char)
  others : List (List Char)

namespace Machine

def isBlank (c : Char) : Bool := c = ' ' || c = '\t' || c = '\r' || c = '\n'

def endsSpecification (c : Char) : Bool := c = '\n' || c = ';'

def fields (specification : List Char) : List (List Char) := (specification.splitOnP isBlank).filter (· ≠ [])

/-- A specification without a field is none. -/
def read : List (List Char) → Option Machine
  | [] => none
  | [uri] => some ⟨uri, [], []⟩
  | uri :: platforms :: others => some ⟨uri, platforms.splitOn ',', others⟩

def readAll (value : List Char) : List Machine := (value.splitOnP endsSpecification).filterMap fun text => read (fields text)

def buildersOption : List String → Option String
  | "--builders" :: value :: _ => some value
  | _ :: rest => buildersOption rest
  | [] => none

/-- The machines that a command names. -/
def denoted (words : List String) : List Machine :=
  match buildersOption words with
  | some value => readAll value.toList
  | none => []

end Machine

/-- A remote builder with a queue that it serves, and texts that do not end a field or a
specification. -/
structure RemoteTarget where
  remote : RemoteBuilder
  platform : String
  serves : platform ∈ remote.platforms
  plainUri : ∀ c ∈ remote.uri.toList, Machine.isBlank c = false ∧ c ≠ ';'
  plainPlatforms : ∀ platform ∈ remote.platforms, ∀ c ∈ platform.toList, Machine.isBlank c = false ∧ c ≠ ';'

namespace RemoteTarget

def builder (target : RemoteTarget) : QueuedBuilder := .fromRemoteBuilder target.platform target.remote

/-- The command names one machine, which is the builder. -/
def NamedBy (target : RemoteTarget) (words : List String) : Prop :=
  ∃ machine, Machine.denoted words = [machine] ∧ machine.storeUri = target.remote.uri.toList ∧
    machine.platforms = target.remote.platforms.map String.toList

end RemoteTarget

namespace Machine

theorem denoted_commandLine {builder : QueuedBuilder} {drv : DrvIdentifier} (distinct : drv.storePath ≠ "--builders") :
    denoted (builder.commandLine drv) = readAll (if builder.isLocal then "''" else builder.builderName).toList := by
  have words : builder.commandLine drv =
      ["nix-build", drv.storePath, "--builders", if builder.isLocal then "''" else builder.builderName] := by
    rw [QueuedBuilder.commandLine, QueuedBuilder.buildArgs]
    split <;> rfl
  rw [denoted, words, buildersOption, buildersOption, buildersOption]
  · simpa using distinct
  · simp

variable {uri platforms : List Char}

theorem splitOnP_plain {p : Char → Bool} {text : List Char} (plain : ∀ c ∈ text, p c = false) : text.splitOnP p = [text] :=
  List.splitOnP_eq_singleton fun c member => by simp [plain c member]

theorem readAll_quoted (plainUri : ∀ c ∈ uri, isBlank c = false ∧ c ≠ ';')
    (plainPlatforms : ∀ c ∈ platforms, isBlank c = false ∧ c ≠ ';') :
    readAll ('\'' :: uri ++ ' ' :: platforms ++ ['\'']) = [⟨'\'' :: uri, (platforms ++ ['\'']).splitOn ',', []⟩] := by
  have plainEnd : ∀ c, isBlank c = false ∧ c ≠ ';' → endsSpecification c = false := by
    rintro c ⟨blank, different⟩
    simp only [isBlank, Bool.or_eq_false_iff, decide_eq_false_iff_not] at blank
    simp [endsSpecification, blank.2, different]
  have first : ∀ c ∈ '\'' :: uri, isBlank c = false ∧ c ≠ ';' := by
    intro c member
    rcases List.mem_cons.mp member with rfl | inside
    · decide
    · exact plainUri c inside
  have second : ∀ c ∈ platforms ++ ['\''], isBlank c = false ∧ c ≠ ';' := by
    intro c member
    rcases List.mem_append.mp member with inside | last
    · exact plainPlatforms c inside
    · rw [List.mem_singleton.mp last]
      decide
  have single : ∀ c ∈ '\'' :: uri ++ ' ' :: (platforms ++ ['\'']), endsSpecification c = false := by
    intro c member
    rcases List.mem_append.mp member with inside | later
    · exact plainEnd c (first c inside)
    · rcases List.mem_cons.mp later with rfl | inside
      · rfl
      · exact plainEnd c (second c inside)
  have words : fields ('\'' :: uri ++ ' ' :: (platforms ++ ['\''])) = ['\'' :: uri, platforms ++ ['\'']] := by
    rw [fields, List.splitOnP_append_cons _ _ (by rfl), splitOnP_plain fun c member => (first c member).1,
      splitOnP_plain fun c member => (second c member).1]
    simp
  have whole : '\'' :: uri ++ ' ' :: platforms ++ ['\''] = '\'' :: uri ++ ' ' :: (platforms ++ ['\'']) := by
    rw [List.append_assoc]
    rfl
  rw [whole, readAll, splitOnP_plain single, List.filterMap_cons, words]
  rfl

end Machine

namespace RemoteTarget

theorem storePath_ne_option (drv : DrvIdentifier) : drv.storePath ≠ "--builders" := by
  intro same
  have first := congrArg (fun text => text.toList.head?) same
  simp [DrvIdentifier.storePath, String.toList_append] at first

theorem denoted_commandLine (target : RemoteTarget) (drv : DrvIdentifier) :
    Machine.denoted (target.builder.commandLine drv) = [⟨'\'' :: target.remote.uri.toList,
      (List.intercalate [','] (target.remote.platforms.map String.toList) ++ ['\'']).splitOn ',', []⟩] := by
  have plainPlatforms : ∀ c ∈ List.intercalate [','] (target.remote.platforms.map String.toList),
      Machine.isBlank c = false ∧ c ≠ ';' := by
    intro c member
    obtain ⟨part, listed, inside⟩ := List.mem_flatten.mp member
    rcases Lib.mem_of_mem_intersperse listed with rfl | own
    · rw [List.mem_singleton.mp inside]
      decide
    · obtain ⟨platform, served, rfl⟩ := List.mem_map.mp own
      exact target.plainPlatforms platform served c inside
  rw [Machine.denoted_commandLine (storePath_ne_option drv)]
  exact (congrArg Machine.readAll String.toList_ofList).trans (Machine.readAll_quoted target.plainUri plainPlatforms)

theorem not_namedBy (target : RemoteTarget) (drv : DrvIdentifier) : ¬ target.NamedBy (target.builder.commandLine drv) := by
  rintro ⟨machine, named, uri, -⟩
  rw [target.denoted_commandLine drv] at named
  cases named
  exact absurd (congrArg List.length uri) (by simp)

end RemoteTarget

theorem denoted_of_local {builder : QueuedBuilder} (isLocal : builder.isLocal = true) (drv : DrvIdentifier) :
    Machine.denoted (builder.commandLine drv) = [⟨['\'', '\''], [], []⟩] := by
  rw [Machine.denoted_commandLine (RemoteTarget.storePath_ne_option drv), isLocal, if_pos rfl]
  rfl

/-- No build names the machine that it was dispatched to: the quotes around the name are part of
it, and two quotes are a machine where none is meant. -/
theorem buildsElsewhere (drv : DrvIdentifier) : (∀ target : RemoteTarget, ¬ target.NamedBy (target.builder.commandLine drv)) ∧
    ∀ features platform, Machine.denoted ((QueuedBuilder.localFromEnv features platform).commandLine drv) ≠ [] ∧
      Machine.denoted ((QueuedBuilder.localFromEnvFod features platform).commandLine drv) ≠ [] := by
  refine ⟨fun target => target.not_namedBy drv, fun features platform => ⟨?_, ?_⟩⟩
  · rw [denoted_of_local rfl]
    exact List.cons_ne_nil _ _
  · rw [denoted_of_local rfl]
    exact List.cons_ne_nil _ _

def scratchy : RemoteBuilder :=
  ⟨"nix@scratchy.labs.cs.uu.nl", ["i686-linux"], some "/home/nix/.ssh/id_scratchy_auto", 8, 1, ["kvm"], [], none⟩

/-- The machine of the test file is named with a quote in front. -/
theorem scratchy_not_named : ¬ ∀ (target : RemoteTarget) (drv : DrvIdentifier),
    target.NamedBy (target.builder.commandLine drv) := by
  intro always
  have plain : ∀ text ∈ scratchy.uri :: scratchy.platforms,
      (text.toList.all fun c => !Machine.isBlank c && c != ';') = true := by
    intro text member
    rcases List.mem_cons.mp member with rfl | listed
    · decide
    · rw [List.mem_singleton.mp listed]
      decide
  have free {text : String} (all : (text.toList.all fun c => !Machine.isBlank c && c != ';') = true) :
      ∀ c ∈ text.toList, Machine.isBlank c = false ∧ c ≠ ';' := by
    intro c inside
    have own := List.all_eq_true.mp all c inside
    rw [Bool.and_eq_true, Bool.not_eq_true', bne_iff_ne] at own
    exact own
  let target : RemoteTarget := ⟨scratchy, "i686-linux", List.mem_cons_self, free (plain _ List.mem_cons_self),
    fun _ member => free (plain _ (List.mem_cons_of_mem _ member))⟩
  exact target.not_namedBy ⟨"jd83l3jn2mkn530lgcg0y523jq5qji85-hello-2.12.1.drv", by decide⟩ (always target _)

end EkaCI
