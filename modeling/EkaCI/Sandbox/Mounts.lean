import EkaCI.Lib.UnixPath
import EkaCI.Sandbox.Network
import Mathlib.Data.List.Sort

/-! What a sandboxed program sees of the host. The paths of a sandbox are given to bwrap as
binds, one after the other, and once more to the helper inside. The binds of the user come
last, parents first; the other binds are not sorted in among them. -/

namespace EkaCI

open Lib

inductive SandboxNetwork where
  | none
  | filtered
  deriving DecidableEq

structure SandboxSpec where
  program : String
  args : List String := []
  roPaths : List String := []
  rwPaths : List String := []
  env : List (String × String) := []
  cwd : Option String := none
  memoryLimitBytes : Option UInt64 := none
  network : SandboxNetwork := .none
  probe : Bool := false

def nixDaemonSocketDir : String := "/nix/var/nix/daemon-socket"

def systemRoPaths : List String :=
  ["/nix/store", "/etc/ssl/certs", "/etc/resolv.conf", "/etc/hosts", "/etc/passwd", "/etc/group", "/etc/static"]

def sandboxHome : String := "/tmp/home"

def resolvFd : Nat := 3

inductive MountMode where
  | readOnly
  | writable
  deriving DecidableEq

def pathNames (path : String) : List (List Char) := UnixPath.components path.toList

def pathComponents (path : String) : List (List Char) := UnixPath.parts path.toList

def pathStartsWith (path base : String) : Bool := UnixPath.startsWith ⟨path.toList⟩ ⟨base.toList⟩

/-- The path without its last component, and without what separated it. -/
def pathParent (path : String) : Option String :=
  let isSkipped (piece : List Char) : Bool := piece = [] ∨ piece = ['.']
  match ((path.toList.splitOn '/').reverse.dropWhile isSkipped), pathComponents path with
  | [], [['.']] => some ""
  | [], _ => none
  | _ :: before, _ =>
    match before.dropWhile isSkipped with
    | [] => some (if UnixPath.isAbsolute path.toList then "/"
        else if (path.toList.splitOn '/').head? = some ['.'] then "." else "")
    | rest => some (String.ofList (['/'].intercalate rest.reverse))

/-- An absolute path that is written as its names are rendered. -/
def IsNormalPath (path : String) : Prop := path.toList = UnixPath.render (pathNames path) ∧ ['.', '.'] ∉ pathNames path

instance (path : String) : Decidable (IsNormalPath path) := inferInstanceAs (Decidable (_ ∧ _))

namespace SandboxSpec

variable (spec : SandboxSpec) (helper : String)

def systemMounts : List String :=
  systemRoPaths.flatMap fun path =>
    if spec.network = .filtered ∧ path = "/etc/resolv.conf" then [] else ["--ro-bind-try", path, path]

def resolvMount : List String :=
  if spec.network = .filtered then ["--ro-bind-data", toString resolvFd, "/etc/resolv.conf"] else []

def binMounts : List String :=
  [helper, spec.program].flatMap fun bin => if pathStartsWith bin "/nix/store" then [] else ["--ro-bind", bin, bin]

def userPaths : List (String × MountMode) :=
  (spec.roPaths.map (·, MountMode.readOnly) ++ spec.rwPaths.map (·, MountMode.writable)).insertionSort fun first second =>
    (pathComponents first.1).length ≤ (pathComponents second.1).length

def userFlag : MountMode → String
  | .readOnly => "--ro-bind"
  | .writable => "--bind"

def pushMounts : List String :=
  spec.systemMounts ++ spec.resolvMount ++ ["--ro-bind-try", nixDaemonSocketDir, nixDaemonSocketDir] ++
    spec.binMounts helper ++ spec.userPaths.flatMap fun path => [userFlag path.2, path.1, path.1]

def pushEnv : List String :=
  ([("PATH", (pathParent spec.program).getD ""), ("HOME", sandboxHome), ("TMPDIR", "/tmp"), ("NIX_REMOTE", "daemon")] ++
    spec.env).flatMap fun entry => ["--setenv", entry.1, entry.2]

def bwrapPrefix : List String :=
  ["--unshare-all", "--clearenv", "--die-with-parent", "--new-session", "--proc", "/proc", "--dev", "/dev", "--tmpfs",
    "/tmp", "--dir", sandboxHome] ++ spec.pushMounts helper ++ spec.pushEnv ++
    (spec.cwd.map fun cwd => ["--chdir", cwd]).getD [] ++ ["--"]

def programOutsideStore : Option String :=
  if pathStartsWith spec.program "/nix/store" then none else some spec.program

def helperArgs : List String :=
  (systemRoPaths ++ ["/proc"] ++ spec.roPaths ++ spec.programOutsideStore.toList).flatMap (fun path => ["--ro", path]) ++
    (["/tmp", "/dev"] ++ spec.rwPaths).flatMap (fun path => ["--rw", path]) ++ ["--socket-dir", nixDaemonSocketDir] ++
    (spec.memoryLimitBytes.map fun bytes => ["--mem", toString bytes.toNat]).getD [] ++ ["--", spec.program] ++ spec.args

def bwrapArgs : List String :=
  spec.bwrapPrefix helper ++ [helper] ++ if spec.probe then ["--probe"] else spec.helperArgs

end SandboxSpec

structure HelperArgs where
  ro : List String := []
  rw : List String := []
  socketDirs : List String := []
  memBytes : Option UInt64 := none
  probe : Bool := false
  command : List String := []

inductive HelperError where
  | missingValue (flag : String)
  | invalidMem
  | unknownArgument (flag : String)
  | noCommand

/-- Decimal digits, after a plus sign if there is one, that do not overflow. -/
def parseBytes (raw : String) : Option UInt64 :=
  let digits := if raw.toList.head? = some '+' then raw.toList.drop 1 else raw.toList
  if digits ≠ [] ∧ digits.all Char.isDigit ∧ Nat.ofDigitChars 10 digits 0 < UInt64.size then
    some (UInt64.ofNat (Nat.ofDigitChars 10 digits 0))
  else none

/-- The loop over the arguments, with what has been read so far. -/
def readHelperArgs (out : HelperArgs) : List String → Except HelperError HelperArgs
  | [] => .ok out
  | flag :: rest =>
    if flag = "--" then .ok { out with command := rest }
    else if flag = "--probe" then readHelperArgs { out with probe := true } rest
    else if flag = "--ro" ∨ flag = "--rw" ∨ flag = "--socket-dir" ∨ flag = "--mem" then
      match rest with
      | [] => .error (.missingValue flag)
      | value :: rest =>
        if flag = "--ro" then readHelperArgs { out with ro := out.ro ++ [value] } rest
        else if flag = "--rw" then readHelperArgs { out with rw := out.rw ++ [value] } rest
        else if flag = "--socket-dir" then readHelperArgs { out with socketDirs := out.socketDirs ++ [value] } rest
        else
          match parseBytes value with
          | none => .error .invalidMem
          | some bytes => readHelperArgs { out with memBytes := some bytes } rest
    else .error (.unknownArgument flag)

variable (paths rest : List String)

theorem readHelperArgs_ro (out : HelperArgs) :
    readHelperArgs out (paths.flatMap (fun path => ["--ro", path]) ++ rest) =
      readHelperArgs { out with ro := out.ro ++ paths } rest := by
  induction paths generalizing out with
  | nil => simp
  | cons path paths ih => simp [readHelperArgs, ih]

def parseHelperArgs (args : List String) : Except HelperError HelperArgs := do
  let out ← readHelperArgs {} args
  if out.probe = false ∧ out.command = [] then .error .noCommand else .ok out

/-- Something that covers all that is below its target. -/
inductive SandboxMount where
  | bind (mode : MountMode) (source target : String)
  /-- A file or a file system of the sandbox's own. -/
  | own (target : String)

namespace SandboxMount

def target : SandboxMount → String
  | .bind _ _ target | .own target => target

def covers (place : List (List Char)) (mount : SandboxMount) : Bool := pathNames mount.target <+: place

end SandboxMount

/-- The mounts among the options, up to the command. -/
def readMounts : List String → Option (List SandboxMount)
  | [] => none
  | flag :: rest =>
    if flag = "--" then some []
    else if flag ∈ ["--unshare-all", "--clearenv", "--die-with-parent", "--new-session"] then readMounts rest
    else
      match rest with
      | [] => none
      | value :: rest =>
        if flag ∈ ["--proc", "--dev", "--tmpfs"] then (readMounts rest).map (.own value :: ·)
        else if flag ∈ ["--dir", "--chdir"] then readMounts rest
        else
          match rest with
          | [] => none
          | target :: rest =>
            if flag ∈ ["--ro-bind", "--ro-bind-try"] then (readMounts rest).map (.bind .readOnly value target :: ·)
            else if flag = "--bind" then (readMounts rest).map (.bind .writable value target :: ·)
            else if flag = "--ro-bind-data" then (readMounts rest).map (.own target :: ·)
            else if flag = "--setenv" then readMounts rest
            else none

theorem readMounts_bind (mode : MountMode) (path : String) (rest : List String) :
    readMounts (SandboxSpec.userFlag mode :: path :: path :: rest) = (readMounts rest).map (.bind mode path path :: ·) := by
  cases mode <;> simp [SandboxSpec.userFlag, readMounts]

/-- How a place of the host is seen, if at all: the last mount that covers it decides. -/
def seenAs (mounts : List SandboxMount) (place : List (List Char)) : Option MountMode :=
  match (mounts.filter (SandboxMount.covers place)).getLast? with
  | some (.bind mode source target) => if source = target then some mode else none
  | _ => none

namespace SandboxSpec

variable (spec : SandboxSpec) (helper : String)

def systemPaths : List String :=
  systemRoPaths.filter fun path => ¬ (spec.network = .filtered ∧ path = "/etc/resolv.conf")

def bins : List String := [helper, spec.program].filter fun bin => ¬ pathStartsWith bin "/nix/store"

def bindSame (path : String × MountMode) : SandboxMount := .bind path.2 path.1 path.1

/-- The mounts of the program itself, of the helper and of the system. -/
def fixedMounts : List SandboxMount :=
  ["/proc", "/dev", "/tmp"].map .own ++ (spec.systemPaths.map (·, MountMode.readOnly)).map bindSame ++
    (if spec.network = .filtered then [.own "/etc/resolv.conf"] else []) ++
    ((nixDaemonSocketDir :: spec.bins helper).map (·, MountMode.readOnly)).map bindSame

/-- What is the same in every sandbox, and where its programs are. -/
def fixedPaths : List String := spec.systemPaths ++ [nixDaemonSocketDir, helper, spec.program]

/-- All paths of a sandbox, with the mode that each one is meant to have. -/
def declared : List (String × MountMode) :=
  (spec.fixedPaths helper ++ spec.roPaths).map (·, MountMode.readOnly) ++ spec.rwPaths.map (·, MountMode.writable)

end SandboxSpec

/-- A sandbox whose paths are written in their normal form, and each of them once. -/
structure NormalSandbox where
  spec : SandboxSpec
  helper : String
  normal : ∀ path ∈ spec.program :: helper :: (spec.roPaths ++ spec.rwPaths), IsNormalPath path
  distinct : (spec.program :: helper :: (spec.roPaths ++ spec.rwPaths)).Nodup

namespace NormalSandbox

variable (sandbox : NormalSandbox)

/-- A place is seen as the longest of the declared paths that contain it says, and not at all
if there is none. -/
def FollowsLongest (mounts : List SandboxMount) (place : List (List Char)) : Prop :=
  match seenAs mounts place with
  | some mode => ∃ path, (path, mode) ∈ sandbox.spec.declared sandbox.helper ∧ pathNames path <+: place ∧
      ∀ other ∈ sandbox.spec.declared sandbox.helper, pathNames other.1 <+: place →
        (pathNames other.1).length ≤ (pathNames path).length
  | none => ∀ other ∈ sandbox.spec.declared sandbox.helper, ¬ pathNames other.1 <+: place

/-- The modes follow the most specific path, and the helper is told the same paths. -/
structure ModesFollow : Prop where
  mounts : ∃ mounts, readMounts (sandbox.spec.bwrapArgs sandbox.helper) = some mounts ∧
    ∀ place, sandbox.FollowsLongest mounts place
  helper : parseHelperArgs sandbox.spec.helperArgs = .ok {
    ro := systemRoPaths ++ ["/proc"] ++ sandbox.spec.roPaths ++ sandbox.spec.programOutsideStore.toList
    rw := ["/tmp", "/dev"] ++ sandbox.spec.rwPaths
    socketDirs := [nixDaemonSocketDir]
    memBytes := sandbox.spec.memoryLimitBytes
    command := sandbox.spec.program :: sandbox.spec.args }

/-- One path is strictly above another one. -/
def Above (path other : String) : Prop := pathNames path <+: pathNames other ∧ pathNames path ≠ pathNames other

/-- No writable path is the closest one above a path of the system, the helper or the program. -/
def Shielded : Prop :=
  ∀ path ∈ sandbox.spec.fixedPaths sandbox.helper, ∀ writable ∈ sandbox.spec.rwPaths, Above writable path →
    ∃ closer ∈ sandbox.spec.roPaths ++ sandbox.spec.rwPaths, Above writable closer ∧ pathNames closer <+: pathNames path

end NormalSandbox

theorem readMounts_binds (paths : List (String × MountMode)) (rest : List String) :
    readMounts (paths.flatMap (fun path => [SandboxSpec.userFlag path.2, path.1, path.1]) ++ rest) =
      (readMounts rest).map (paths.map SandboxSpec.bindSame ++ ·) := by
  induction paths with
  | nil => simp
  | cons path paths ih =>
    rw [List.flatMap_cons, List.append_assoc, List.cons_append, List.cons_append, List.cons_append, List.nil_append,
      readMounts_bind, ih, Option.map_map]
    rfl

theorem readMounts_env (entries : List (String × String)) (rest : List String) :
    readMounts (entries.flatMap (fun entry => ["--setenv", entry.1, entry.2]) ++ rest) = readMounts rest := by
  induction entries with
  | nil => rfl
  | cons entry entries ih => simp [readMounts, ih]

theorem readMounts_tries :
    readMounts (paths.flatMap (fun path => ["--ro-bind-try", path, path]) ++ rest) =
      (readMounts rest).map ((paths.map (·, MountMode.readOnly)).map SandboxSpec.bindSame ++ ·) := by
  induction paths with
  | nil => simp
  | cons path paths ih => simp [readMounts, ih, SandboxSpec.bindSame, Option.map_map, Function.comp_def]

theorem flatMap_ite {A B : Type} (skip : A → Prop) [DecidablePred skip] (given : A → List B) (values : List A) :
    (values.flatMap fun value => if skip value then [] else given value) =
      (values.filter fun value => ¬ skip value).flatMap given := by
  induction values with
  | nil => rfl
  | cons value values ih =>
    rw [List.flatMap_cons, ih, List.filter_cons]
    by_cases skipped : skip value <;> simp [skipped]

theorem readMounts_end : readMounts ("--" :: rest) = some [] := by
  unfold readMounts
  rfl

theorem readMounts_skip {flag : String} (skipped : flag ∈ ["--dir", "--chdir"]) (value : String) (rest : List String) :
    readMounts (flag :: value :: rest) = readMounts rest := by
  conv_lhs => unfold readMounts
  simp only [List.mem_cons, List.not_mem_nil, or_false] at skipped
  obtain rfl | rfl := skipped <;> simp

namespace SandboxSpec

variable (spec : SandboxSpec) (helper : String)

theorem systemMounts_eq : spec.systemMounts = spec.systemPaths.flatMap fun path => ["--ro-bind-try", path, path] :=
  flatMap_ite (fun path => spec.network = .filtered ∧ path = "/etc/resolv.conf") _ _

theorem binMounts_eq : spec.binMounts helper =
    ((spec.bins helper).map (·, MountMode.readOnly)).flatMap fun path => [userFlag path.2, path.1, path.1] := by
  rw [List.flatMap_map]
  exact flatMap_ite (fun bin => pathStartsWith bin "/nix/store" = true) _ _

theorem readMounts_resolvMount (rest : List String) : readMounts (spec.resolvMount ++ rest) =
    (readMounts rest).map ((if spec.network = .filtered then [.own "/etc/resolv.conf"] else []) ++ ·) := by
  unfold resolvMount
  split
  · simp [readMounts]
  · simp

theorem readMounts_cwd (rest : List String) :
    readMounts ((spec.cwd.map fun cwd => ["--chdir", cwd]).getD [] ++ rest) = readMounts rest := by
  cases spec.cwd with
  | none => rfl
  | some cwd => exact readMounts_skip (by simp) cwd rest

theorem readMounts_bwrapArgs : readMounts (spec.bwrapArgs helper) =
    some (spec.fixedMounts helper ++ spec.userPaths.map bindSame) := by
  have socket (rest : List String) :
      readMounts (["--ro-bind-try", nixDaemonSocketDir, nixDaemonSocketDir] ++ rest) =
        (readMounts rest).map (.bind .readOnly nixDaemonSocketDir nixDaemonSocketDir :: ·) := by
    simp [readMounts]
  have prefixed (rest : List String) :
      readMounts (["--unshare-all", "--clearenv", "--die-with-parent", "--new-session", "--proc", "/proc", "--dev",
        "/dev", "--tmpfs", "/tmp", "--dir", sandboxHome] ++ rest) =
          (readMounts rest).map (["/proc", "/dev", "/tmp"].map .own ++ ·) := by
    simp [readMounts, readMounts_skip, Option.map_map, Function.comp_def]
  rw [bwrapArgs, bwrapPrefix, pushMounts, systemMounts_eq, binMounts_eq, pushEnv]
  simp only [List.append_assoc]
  rw [prefixed, readMounts_tries, readMounts_resolvMount, socket, readMounts_binds, readMounts_binds, readMounts_env,
    readMounts_cwd, List.singleton_append, readMounts_end]
  simp [fixedMounts, bindSame]

end SandboxSpec

theorem parseBytes_toString (bytes : UInt64) : parseBytes (toString bytes.toNat) = some bytes := by
  have digits : (toString bytes.toNat).toList = Nat.toDigits 10 bytes.toNat := by
    rw [Nat.toString_eq_ofList_toDigits, String.toList_ofList]
  have numeric : ∀ digit ∈ Nat.toDigits 10 bytes.toNat, digit.isDigit = true :=
    fun _ member => Nat.isDigit_of_mem_toDigits (by omega) (by omega) member
  have unsigned : (Nat.toDigits 10 bytes.toNat).head? ≠ some '+' := by
    intro plus
    exact absurd (numeric _ (List.mem_of_mem_head? plus)) (by decide)
  rw [parseBytes, digits, if_neg unsigned, Nat.ofDigitChars_ten_toDigits,
    if_pos ⟨Nat.toDigits_ne_nil, List.all_eq_true.mpr numeric, bytes.toNat_lt⟩]
  simp

theorem readHelperArgs_rw (out : HelperArgs) :
    readHelperArgs out (paths.flatMap (fun path => ["--rw", path]) ++ rest) =
      readHelperArgs { out with rw := out.rw ++ paths } rest := by
  induction paths generalizing out with
  | nil => simp
  | cons path paths ih => simp [readHelperArgs, ih]

theorem readHelperArgs_mem (limit : Option UInt64) (rest : List String) (out : HelperArgs) (fresh : out.memBytes = none) :
    readHelperArgs out ((limit.map fun bytes => ["--mem", toString bytes.toNat]).getD [] ++ rest) =
      readHelperArgs { out with memBytes := limit } rest := by
  cases limit with
  | none =>
    obtain ⟨ro, rw, socketDirs, memBytes, probe, command⟩ := out
    cases fresh
    rfl
  | some bytes =>
    have parsed := parseBytes_toString bytes
    change readHelperArgs out ("--mem" :: toString bytes.toNat :: rest) = _
    generalize toString bytes.toNat = raw at parsed
    simp [readHelperArgs, parsed]

theorem parseHelperArgs_helperArgs (spec : SandboxSpec) : parseHelperArgs spec.helperArgs = .ok {
    ro := systemRoPaths ++ ["/proc"] ++ spec.roPaths ++ spec.programOutsideStore.toList
    rw := ["/tmp", "/dev"] ++ spec.rwPaths
    socketDirs := [nixDaemonSocketDir]
    memBytes := spec.memoryLimitBytes
    command := spec.program :: spec.args } := by
  have socket (rest : List String) (out : HelperArgs) : readHelperArgs out (["--socket-dir", nixDaemonSocketDir] ++ rest) =
      readHelperArgs { out with socketDirs := out.socketDirs ++ [nixDaemonSocketDir] } rest := by
    simp [readHelperArgs]
  have ended (rest : List String) (out : HelperArgs) :
      readHelperArgs out (["--", spec.program] ++ rest) = .ok { out with command := spec.program :: rest } := by
    simp [readHelperArgs]
  rw [parseHelperArgs, SandboxSpec.helperArgs]
  simp only [List.append_assoc]
  rw [readHelperArgs_ro, readHelperArgs_rw, socket, readHelperArgs_mem _ _ _ rfl, ended]
  rfl

section SeenAs

variable {mounts : List SandboxMount} {place : List (List Char)}

theorem seenAs_append_of_uncovered {later : List SandboxMount} (uncovered : ∀ mount ∈ later, mount.covers place = false) :
    seenAs (mounts ++ later) place = seenAs mounts place := by
  have none : later.filter (SandboxMount.covers place) = [] :=
    List.filter_eq_nil_iff.mpr fun mount member => by rw [uncovered mount member]; exact Bool.false_ne_true
  rw [seenAs, seenAs, List.filter_append, none, List.append_nil]

theorem seenAs_append_own (target : String) : seenAs (mounts ++ [.own target]) place =
    if pathNames target <+: place then none else seenAs mounts place := by
  split
  next covers =>
    have covered : SandboxMount.covers place (.own target) = true := decide_eq_true covers
    rw [seenAs, List.filter_append, List.filter_singleton, covered, cond_true, List.getLast?_concat]
  next apart =>
    refine seenAs_append_of_uncovered fun mount member => ?_
    rw [List.mem_singleton.mp member]
    exact decide_eq_false apart

theorem seenAs_own (targets : List String) : seenAs (targets.map .own) place = none := by
  rw [seenAs, List.filter_map, List.getLast?_map]
  cases (targets.filter (SandboxMount.covers place ∘ .own)).getLast? <;> rfl

theorem seenAs_append_binds (paths : List (String × MountMode)) :
    seenAs (mounts ++ paths.map SandboxSpec.bindSame) place =
      match (paths.filter fun path => pathNames path.1 <+: place).getLast? with
      | some path => some path.2
      | none => seenAs mounts place := by
  have filtered : (paths.map SandboxSpec.bindSame).filter (SandboxMount.covers place) =
      (paths.filter fun path => pathNames path.1 <+: place).map SandboxSpec.bindSame := List.filter_map
  rw [seenAs, List.filter_append, filtered, List.getLast?_append, List.getLast?_map]
  cases (paths.filter fun path => pathNames path.1 <+: place).getLast? with
  | none => rfl
  | some path => exact if_pos rfl

theorem seenAs_append_readOnly (paths : List String) :
    seenAs (mounts ++ (paths.map (·, MountMode.readOnly)).map SandboxSpec.bindSame) place =
      if ∃ path ∈ paths, pathNames path <+: place then some .readOnly else seenAs mounts place := by
  have filtered : ((paths.map (·, MountMode.readOnly)).filter fun path => pathNames path.1 <+: place) =
      (paths.filter fun path => pathNames path <+: place).map (·, MountMode.readOnly) := List.filter_map
  rw [seenAs_append_binds, filtered, List.getLast?_map]
  split
  next path last =>
    obtain ⟨found, ends, rfl⟩ := Option.map_eq_some_iff.mp last
    obtain ⟨member, contains⟩ := List.mem_filter.mp (List.mem_of_getLast? ends)
    rw [if_pos ⟨found, member, of_decide_eq_true contains⟩]
  next last =>
    have none := List.getLast?_eq_none_iff.mp (Option.map_eq_none_iff.mp last)
    rw [if_neg]
    rintro ⟨path, member, contains⟩
    exact List.filter_eq_nil_iff.mp none path member (decide_eq_true contains)

end SeenAs

theorem names_injective {path other : String} (normal : IsNormalPath path) (normal' : IsNormalPath other)
    (same : pathNames path = pathNames other) : path = other := by
  rw [← String.toList_inj, normal.1, normal'.1, same]

theorem IsNormalPath.absolute {path : String} (normal : IsNormalPath path) : UnixPath.isAbsolute path.toList = true := by
  rw [UnixPath.isAbsolute, normal.1, UnixPath.render]
  split
  next => rfl
  next named =>
    cases names : pathNames path with
    | nil => exact absurd names named
    | cons name rest => rfl

theorem IsNormalPath.components {path : String} (normal : IsNormalPath path) :
    pathComponents path = ['/'] :: pathNames path := by
  rw [pathComponents, UnixPath.parts, if_pos normal.absolute, List.singleton_append]
  rfl

namespace NormalSandbox

variable {sandbox : NormalSandbox} {place : List (List Char)}
variable {path other : String} {spec : SandboxSpec} {entry : String × MountMode} {mode : MountMode}

theorem mem_userPaths : (path, mode) ∈ spec.userPaths ↔
    (path ∈ spec.roPaths ∧ mode = .readOnly) ∨ (path ∈ spec.rwPaths ∧ mode = .writable) := by
  rw [SandboxSpec.userPaths, List.mem_insertionSort, List.mem_append]
  simp [eq_comm]

theorem normal_of_mem (member : entry ∈ sandbox.spec.userPaths) : IsNormalPath entry.1 := by
  refine sandbox.normal entry.1 (List.mem_cons_of_mem _ (List.mem_cons_of_mem _ (List.mem_append.mpr ?_)))
  exact (mem_userPaths.mp member).imp And.left And.left

theorem seenAs_user (mounts : List SandboxMount) (member : entry ∈ sandbox.spec.userPaths)
    (contains : pathNames entry.1 <+: place) :
    ∃ longest mode, (longest, mode) ∈ sandbox.spec.userPaths ∧ pathNames longest <+: place ∧
      (∀ other ∈ sandbox.spec.userPaths, pathNames other.1 <+: place →
        (pathNames other.1).length ≤ (pathNames longest).length) ∧
      seenAs (mounts ++ sandbox.spec.userPaths.map SandboxSpec.bindSame) place = some mode := by
  rw [seenAs_append_binds]
  split
  next last found =>
    obtain ⟨longest, mode⟩ := last
    obtain ⟨listed, contains⟩ := List.mem_filter.mp (List.mem_of_getLast? found)
    refine ⟨longest, mode, listed, of_decide_eq_true contains, fun other stored below => ?_, rfl⟩
    obtain ⟨before, split⟩ := List.getLast?_eq_some_iff.mp found
    have sorted : (sandbox.spec.userPaths.filter fun path => pathNames path.1 <+: place).Pairwise fun first second =>
        (pathComponents first.1).length ≤ (pathComponents second.1).length := (List.pairwise_insertionSort _ _).filter _
    have candidate : other ∈ sandbox.spec.userPaths.filter fun path => pathNames path.1 <+: place :=
      List.mem_filter.mpr ⟨stored, decide_eq_true below⟩
    rw [split] at sorted candidate
    obtain earlier | same := List.mem_append.mp candidate
    · have shorter := (List.pairwise_append.mp sorted).2.2 other earlier _ List.mem_cons_self
      rw [(normal_of_mem stored).components, (normal_of_mem listed).components] at shorter
      exact Nat.le_of_succ_le_succ shorter
    · rw [List.mem_singleton.mp same]
  next missing =>
    have none := List.getLast?_eq_none_iff.mp missing
    exact absurd (decide_eq_true contains) (List.filter_eq_nil_iff.mp none _ member)

theorem apart_resolv : ∀ path ∈ systemRoPaths, path ≠ "/etc/resolv.conf" →
    ¬ pathNames path <+: pathNames "/etc/resolv.conf" ∧ ¬ pathNames "/etc/resolv.conf" <+: pathNames path := by
  decide

theorem store_mem_systemPaths (spec : SandboxSpec) : "/nix/store" ∈ spec.systemPaths :=
  List.mem_filter.mpr ⟨List.mem_cons_self, decide_eq_true fun resolv => absurd resolv.2 (by decide)⟩

theorem below_store (normal : IsNormalPath path) (below : pathStartsWith path "/nix/store" = true) :
    pathNames "/nix/store" <+: pathNames path := by
  have below : pathComponents "/nix/store" <+: pathComponents path := of_decide_eq_true below
  rw [normal.components, IsNormalPath.components (by decide), List.cons_prefix_cons] at below
  exact below.2

theorem fixed_of_unbound (fixed : path ∈ sandbox.spec.fixedPaths sandbox.helper) (contains : pathNames path <+: place)
    (unbound : ¬ ∃ path ∈ nixDaemonSocketDir :: sandbox.spec.bins sandbox.helper, pathNames path <+: place) :
    ∃ path ∈ sandbox.spec.systemPaths, pathNames path <+: place := by
  have stored {bin : String} (named : bin ∈ [sandbox.helper, sandbox.spec.program]) (contains : pathNames bin <+: place) :
      ∃ path ∈ sandbox.spec.systemPaths, pathNames path <+: place := by
    have normal : IsNormalPath bin := by
      refine sandbox.normal bin ?_
      simp only [List.mem_cons, List.not_mem_nil, or_false] at named ⊢
      tauto
    refine ⟨_, store_mem_systemPaths _, (below_store normal ?_).trans contains⟩
    by_contra outside
    exact unbound ⟨bin, List.mem_cons_of_mem _ (List.mem_filter.mpr ⟨named, decide_eq_true outside⟩), contains⟩
  simp only [SandboxSpec.fixedPaths, List.mem_append, List.mem_cons, List.not_mem_nil, or_false] at fixed
  obtain system | rfl | rfl | rfl := fixed
  · exact ⟨path, system, contains⟩
  · exact absurd ⟨_, List.mem_cons_self, contains⟩ unbound
  · exact stored (by simp) contains
  · exact stored (by simp) contains

theorem seenAs_fixed (sandbox : NormalSandbox) (place : List (List Char)) :
    seenAs (sandbox.spec.fixedMounts sandbox.helper) place =
      if ∃ path ∈ sandbox.spec.fixedPaths sandbox.helper, pathNames path <+: place then some .readOnly else none := by
  have system : seenAs (["/proc", "/dev", "/tmp"].map .own ++
      (sandbox.spec.systemPaths.map (·, MountMode.readOnly)).map SandboxSpec.bindSame) place =
        if ∃ path ∈ sandbox.spec.systemPaths, pathNames path <+: place then some .readOnly else none := by
    rw [seenAs_append_readOnly, seenAs_own]
  rw [SandboxSpec.fixedMounts, seenAs_append_readOnly]
  by_cases bound : ∃ path ∈ nixDaemonSocketDir :: sandbox.spec.bins sandbox.helper, pathNames path <+: place
  · rw [if_pos bound, if_pos]
    obtain ⟨path, member, contains⟩ := bound
    refine ⟨path, List.mem_append_right _ ?_, contains⟩
    obtain rfl | bin := List.mem_cons.mp member
    · exact List.mem_cons_self
    · exact List.mem_cons_of_mem _ (List.mem_filter.mp bin).1
  · have fixed : (∃ path ∈ sandbox.spec.fixedPaths sandbox.helper, pathNames path <+: place) ↔
        ∃ path ∈ sandbox.spec.systemPaths, pathNames path <+: place :=
      ⟨fun ⟨path, member, contains⟩ => fixed_of_unbound member contains bound,
        fun ⟨path, member, contains⟩ => ⟨path, List.mem_append_left _ member, contains⟩⟩
    rw [if_neg bound]
    simp only [fixed]
    split
    next filtered =>
      rw [seenAs_append_own, system]
      split
      next resolv =>
        rw [if_neg]
        rintro ⟨path, member, contains⟩
        obtain ⟨listed, kept⟩ := List.mem_filter.mp member
        have apart := apart_resolv path listed fun same => of_decide_eq_true kept ⟨filtered, same⟩
        exact (List.prefix_or_prefix_of_prefix contains resolv).elim apart.1 apart.2
      next => rfl
    next => rw [List.append_nil, system]

theorem mem_declared {helper : String} :
    (path, mode) ∈ spec.declared helper ↔
      (path ∈ spec.fixedPaths helper ∧ mode = .readOnly) ∨ (path, mode) ∈ spec.userPaths := by
  rw [mem_userPaths, SandboxSpec.declared, List.map_append, List.append_assoc, List.mem_append, List.mem_append]
  simp [eq_comm]

theorem exists_userPath (member : path ∈ spec.roPaths ++ spec.rwPaths) : ∃ mode, (path, mode) ∈ spec.userPaths := by
  obtain readable | writable := List.mem_append.mp member
  · exact ⟨_, mem_userPaths.mpr (.inl ⟨readable, rfl⟩)⟩
  · exact ⟨_, mem_userPaths.mpr (.inr ⟨writable, rfl⟩)⟩

theorem exists_longest (paths : List (String × MountMode)) (member : entry ∈ paths)
    (contains : pathNames entry.1 <+: place) : ∃ longest ∈ paths, pathNames longest.1 <+: place ∧
      ∀ other ∈ paths, pathNames other.1 <+: place → (pathNames other.1).length ≤ (pathNames longest.1).length := by
  have candidate : entry ∈ paths.filter fun path => pathNames path.1 <+: place :=
    List.mem_filter.mpr ⟨member, decide_eq_true contains⟩
  obtain ⟨longest, best⟩ := Option.ne_none_iff_exists'.mp fun missing =>
    absurd (List.argmax_eq_none (f := fun path : String × MountMode => (pathNames path.1).length).mp missing)
      (List.ne_nil_of_mem candidate)
  obtain ⟨listed, below⟩ := List.mem_filter.mp (List.argmax_mem best)
  refine ⟨longest, listed, of_decide_eq_true below, fun other stored below => ?_⟩
  exact List.le_of_mem_argmax (f := fun path : String × MountMode => (pathNames path.1).length)
    (List.mem_filter.mpr ⟨stored, decide_eq_true below⟩) best

theorem Above.length_lt (above : Above path other) : (pathNames path).length < (pathNames other).length :=
  lt_of_le_of_ne above.1.length_le fun same => above.2 (above.1.eq_of_length same)

theorem above_of_lt (contains : pathNames path <+: place) (contains' : pathNames other <+: place)
    (shorter : (pathNames path).length < (pathNames other).length) : Above path other :=
  ⟨List.prefix_of_prefix_length_le contains contains' shorter.le, fun same => shorter.ne (congrArg List.length same)⟩

abbrev mounts (sandbox : NormalSandbox) : List SandboxMount :=
  sandbox.spec.fixedMounts sandbox.helper ++ sandbox.spec.userPaths.map SandboxSpec.bindSame

theorem seenAs_of_no_user (apart : ∀ path ∈ sandbox.spec.userPaths, ¬ pathNames path.1 <+: place) :
    seenAs sandbox.mounts place =
      if ∃ path ∈ sandbox.spec.fixedPaths sandbox.helper, pathNames path <+: place then some .readOnly else none := by
  rw [← seenAs_fixed]
  refine seenAs_append_of_uncovered fun mount member => ?_
  obtain ⟨path, listed, rfl⟩ := List.mem_map.mp member
  exact decide_eq_false (apart path listed)

theorem Shielded.follows (shielded : sandbox.Shielded) (place : List (List Char)) :
    sandbox.FollowsLongest sandbox.mounts place := by
  by_cases user : ∃ path ∈ sandbox.spec.userPaths, pathNames path.1 <+: place
  · obtain ⟨path, member, contains⟩ := user
    obtain ⟨longest, mode, listed, below, most, seen⟩ :=
      seenAs_user (sandbox.spec.fixedMounts sandbox.helper) member contains
    rw [FollowsLongest, seen]
    obtain ⟨⟨best, bestMode⟩, declared, above, greatest⟩ :=
      exists_longest (sandbox.spec.declared sandbox.helper) (mem_declared.mpr (.inr listed)) below
    by_cases enough : (pathNames best).length ≤ (pathNames longest).length
    · exact ⟨longest, mem_declared.mpr (.inr listed), below, fun other stored contained =>
        (greatest other stored contained).trans enough⟩
    · have closer := above_of_lt below above (Nat.lt_of_not_le enough)
      obtain ⟨fixed, rfl⟩ | stored := mem_declared.mp declared
      · cases mode with
        | readOnly => exact ⟨best, declared, above, greatest⟩
        | writable =>
          have writable : longest ∈ sandbox.spec.rwPaths := by
            obtain ⟨-, ⟨⟩⟩ | ⟨writable, -⟩ := mem_userPaths.mp listed
            exact writable
          obtain ⟨between, chosen, nearer, under⟩ := shielded best fixed longest writable closer
          obtain ⟨mode, stored⟩ := exists_userPath chosen
          exact absurd (most _ stored (under.trans above)) (Nat.not_le_of_lt nearer.length_lt)
      · exact absurd (most _ stored above) enough
  · push Not at user
    rw [FollowsLongest, seenAs_of_no_user user]
    split
    next mode seen =>
      split at seen
      next fixed =>
        cases seen
        obtain ⟨path, member, contains⟩ := fixed
        obtain ⟨⟨best, bestMode⟩, declared, above, greatest⟩ :=
          exists_longest (sandbox.spec.declared sandbox.helper) (mem_declared.mpr (.inl ⟨member, rfl⟩)) contains
        obtain ⟨-, rfl⟩ | stored := mem_declared.mp declared
        · exact ⟨best, declared, above, greatest⟩
        · exact absurd above (user _ stored)
      next => cases seen
    next unseen =>
      split at unseen
      next => cases unseen
      next free =>
        intro other declared contains
        obtain ⟨fixed, -⟩ | stored := mem_declared.mp declared
        · exact free ⟨other.1, fixed, contains⟩
        · exact user _ stored contains

theorem not_mem_roPaths (writable : path ∈ sandbox.spec.rwPaths) : path ∉ sandbox.spec.roPaths := by
  intro readable
  have distinct := (List.nodup_cons.mp (List.nodup_cons.mp sandbox.distinct).2).2
  exact (List.nodup_append.mp distinct).2.2 path readable path writable rfl

theorem shielded_of_follows (follows : ∀ place, sandbox.FollowsLongest sandbox.mounts place) : sandbox.Shielded := by
  intro path fixed writable member above
  by_contra exposed
  push Not at exposed
  have listed : (writable, MountMode.writable) ∈ sandbox.spec.userPaths := mem_userPaths.mpr (.inr ⟨member, rfl⟩)
  obtain ⟨longest, mode, stored, below, most, seen⟩ :=
    seenAs_user (sandbox.spec.fixedMounts sandbox.helper) listed above.1
  have chosen : longest ∈ sandbox.spec.roPaths ++ sandbox.spec.rwPaths :=
    List.mem_append.mpr ((mem_userPaths.mp stored).imp And.left And.left)
  have same : pathNames writable = pathNames longest := by
    by_contra differ
    have shorter := most _ listed above.1
    refine exposed longest chosen ⟨?_, differ⟩ below
    exact List.prefix_of_prefix_length_le above.1 below shorter
  obtain rfl := names_injective (normal_of_mem listed) (normal_of_mem stored) same
  obtain ⟨readable, -⟩ | ⟨-, rfl⟩ := mem_userPaths.mp stored
  · exact not_mem_roPaths member readable
  · have follows := follows (pathNames path)
    rw [FollowsLongest, seen] at follows
    obtain ⟨best, declared, contains, greatest⟩ := follows
    have noLonger := greatest _ (mem_declared.mpr (.inl ⟨fixed, rfl⟩)) List.prefix_rfl
    have whole : pathNames best = pathNames path := contains.eq_of_length_le noLonger
    obtain ⟨-, ⟨⟩⟩ | user := mem_declared.mp declared
    refine exposed best (List.mem_append.mpr ((mem_userPaths.mp user).imp And.left And.left)) ?_ contains
    rwa [Above, whole]

/-- The modes follow the most specific path exactly if no writable path is the closest one
above a path that the sandbox adds by itself. -/
theorem modesFollow_iff (sandbox : NormalSandbox) : sandbox.ModesFollow ↔ sandbox.Shielded := by
  constructor
  · rintro ⟨⟨mounts, read, follows⟩, -⟩
    rw [SandboxSpec.readMounts_bwrapArgs, Option.some.injEq] at read
    subst read
    exact shielded_of_follows follows
  · intro shielded
    exact ⟨⟨_, SandboxSpec.readMounts_bwrapArgs _ _, shielded.follows⟩, parseHelperArgs_helperArgs _⟩

def toolInCheckout : NormalSandbox where
  spec := { program := "/work/bin/tool", rwPaths := ["/work"] }
  helper := "/nix/store/helper/bin/helper"
  normal := by decide
  distinct := by decide

/-- The program can overwrite itself. -/
theorem toolInCheckout_not_modesFollow : ¬ toolInCheckout.ModesFollow := by
  rintro ⟨⟨mounts, read, follows⟩, -⟩
  rw [SandboxSpec.readMounts_bwrapArgs, Option.some.injEq] at read
  subst read
  have seen : seenAs toolInCheckout.mounts (pathNames "/work/bin/tool") = some .writable := by decide
  have follows := follows (pathNames "/work/bin/tool")
  rw [FollowsLongest, seen] at follows
  obtain ⟨best, declared, -, greatest⟩ := follows
  have program : ("/work/bin/tool", MountMode.readOnly) ∈ toolInCheckout.spec.declared toolInCheckout.helper := by
    decide
  obtain ⟨-, ⟨⟩⟩ | user := mem_declared.mp declared
  obtain ⟨-, ⟨⟩⟩ | ⟨writable, -⟩ := mem_userPaths.mp user
  cases List.mem_singleton.mp writable
  exact absurd (greatest _ program List.prefix_rfl) (by decide)

end NormalSandbox

end EkaCI
