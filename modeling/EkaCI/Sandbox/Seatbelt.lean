import EkaCI.Lib.SExpr
import EkaCI.Lib.UnixPath

/-! The profile under which a check runs on macOS. It is a text, and the paths in it come from
the user's machine: what counts is what the text reads as, and which of its rules decides. -/

namespace EkaCI

open Lib

namespace Seatbelt

def baseProfile : List String :=
  [ "(version 1)",
    "(deny default)",
    "(allow process-fork)",
    "(allow process-exec)",
    "(allow signal (target same-sandbox))",
    "(allow process-info* (target same-sandbox))",
    "(allow sysctl-read)",
    "(allow user-preference-read)",
    "(allow ipc-posix-sem)",
    "(allow ipc-posix-shm)",
    "(allow pseudo-tty)",
    "(allow file-ioctl (subpath \"/dev\"))",
    "(allow mach-lookup",
    "  (global-name \"com.apple.system.opendirectoryd.libinfo\")",
    "  (global-name \"com.apple.system.notification_center\")",
    "  (global-name \"com.apple.system.logger\")",
    "  (global-name \"com.apple.logd\")",
    "  (global-name \"com.apple.SecurityServer\")",
    "  (global-name \"com.apple.trustd.agent\"))",
    "(allow file-read-metadata)",
    "(allow file-read*",
    "  (literal \"/\")",
    "  (subpath \"/nix/store\")",
    "  (subpath \"/nix/var/nix/daemon-socket\")",
    "  (subpath \"/bin\")",
    "  (subpath \"/usr/bin\")",
    "  (subpath \"/usr/lib\")",
    "  (subpath \"/usr/share\")",
    "  (subpath \"/System\")",
    "  (subpath \"/Library/Apple\")",
    "  (subpath \"/private/etc\")",
    "  (subpath \"/private/var/db/timezone\")",
    "  (subpath \"/dev\"))",
    "(deny file-read* (subpath \"/private/etc/nix\"))",
    "(allow file-write*",
    "  (literal \"/dev/null\")",
    "  (literal \"/dev/zero\")",
    "  (literal \"/dev/tty\")",
    "  (regex #\"^/dev/fd/\"))"]

def networkProfile : List String :=
  [ "(allow system-socket)",
    "(allow network-outbound)",
    "(deny network-outbound (remote ip \"localhost:*\"))",
    "(deny network-outbound (remote unix-socket))",
    "(allow mach-lookup",
    "  (global-name \"com.apple.dnssd.service\")",
    "  (global-name \"com.apple.SystemConfiguration.configd\"))"]

def nixDaemonSocket : UnixPath := ⟨"/nix/var/nix/daemon-socket/socket".toList⟩

def joinLines (lines : List String) : List Char := lines.flatMap fun line => line.toList ++ ['\n']

def replace (character : Char) (others text : List Char) : List Char :=
  text.flatMap fun other => if other = character then others else [other]

def quote (path : UnixPath) : List Char :=
  '"' :: replace '"' ['\\', '"'] (replace '\\' ['\\', '\\'] path.text) ++ ['"']

section Profile

variable (canonical : UnixPath → UnixPath) (root : UnixPath) (gitPaths : List UnixPath)

/-- `.git` is among them even if it does not exist. -/
def gitDirs : List UnixPath :=
  (gitPaths.map canonical).foldl (fun out path => if path ∈ out then out else out ++ [path])
    [(canonical root).push ".git".toList]

def gitLines (git : UnixPath) : List Char :=
  "(allow file-read* (subpath ".toList ++ quote git ++ "))\n".toList ++
    ("(deny file-write* (subpath ".toList ++ quote git ++ "))\n".toList)

def profile (tmp : UnixPath) (network : Bool) : List Char :=
  let repo := quote (canonical root)
  joinLines baseProfile ++
    ("(allow file-read* (subpath ".toList ++ repo ++ ") (subpath ".toList ++ quote tmp ++ "))\n".toList) ++
    ("(allow file-write* (subpath ".toList ++ repo ++ ") (subpath ".toList ++ quote tmp ++ "))\n".toList) ++
    (gitDirs canonical root gitPaths).flatMap gitLines ++
    (if network then joinLines networkProfile else []) ++
    ("(allow network-outbound (remote unix-socket (path-literal ".toList ++ quote nixDaemonSocket ++ ")))\n".toList)

end Profile

/-! What the rules of a profile mean: the last one that is about a request decides it. -/

inductive SandboxTarget where
  /-- The absolute path of a file, without links. -/
  | file (path : List Char)
  | ip (loopback : Bool)
  | unixSocket (path : List Char)

structure SandboxRequest where
  operation : List Char
  target : SandboxTarget

structure Rule where
  allows : Bool
  operation : List Char
  filters : List SExpr
  deriving DecidableEq

/-- A path lies at or below another. -/
def Under (base : List Char) (path : List Char) : Prop := UnixPath.components base <+: UnixPath.components path

instance (base path : List Char) : Decidable (Under base path) := inferInstanceAs (Decidable (_ <+: _))

def filterMatches (target : SandboxTarget) : SExpr → Bool
  | .list [.symbol kind, .text pattern] =>
    match target with
    | .file path => (kind = "literal".toList && pattern = path) || (kind = "subpath".toList && decide (Under pattern path))
    | _ => false
  -- The only expression is an anchored text.
  | .list [.symbol kind, .raw pattern] =>
    match target with
    | .file path => kind = "regex".toList && pattern.head? = some '^' && pattern.tail.isPrefixOf path
    | _ => false
  | .list [.symbol remote, .symbol kind] =>
    match target with
    | .unixSocket _ => remote = "remote".toList && kind = "unix-socket".toList
    | _ => false
  | .list [.symbol remote, .symbol kind, .text pattern] =>
    match target with
    | .ip loopback => remote = "remote".toList && kind = "ip".toList && pattern = "localhost:*".toList && loopback
    | _ => false
  | .list [.symbol remote, .symbol kind, .list [.symbol literal, .text pattern]] =>
    match target with
    | .unixSocket path => remote = "remote".toList && kind = "unix-socket".toList && literal = "path-literal".toList &&
        pattern = path
    | _ => false
  | _ => false

/-- An operation is named in full, or by how it begins. -/
def covers (pattern operation : List Char) : Bool :=
  pattern = "default".toList || pattern = operation ||
    (pattern.getLast? = some '*' && pattern.dropLast.isPrefixOf operation)

namespace Rule

def ofForm : SExpr → Option Rule
  | .list (.symbol verdict :: .symbol operation :: filters) =>
    if verdict = "allow".toList then some ⟨true, operation, filters⟩
    else if verdict = "deny".toList then some ⟨false, operation, filters⟩
    else none
  | _ => none

/-- The expression of a rule. -/
def form (rule : Rule) : SExpr :=
  .list (.symbol (if rule.allows then "allow".toList else "deny".toList) :: .symbol rule.operation :: rule.filters)

def isAbout (request : SandboxRequest) (rule : Rule) : Bool :=
  covers rule.operation request.operation && (rule.filters.isEmpty || rule.filters.any (filterMatches request.target))

end Rule

def evaluate (request : SandboxRequest) (allowed : Bool) (rules : List Rule) : Bool :=
  rules.foldl (fun allowed rule => if rule.isAbout request then rule.allows else allowed) allowed

/-- What a profile says; `none` if it cannot be read. -/
def decides (text : List Char) (request : SandboxRequest) : Option Bool :=
  (SExpr.readAll text).map fun forms => evaluate request false (forms.filterMap Rule.ofForm)

def literal (kind content : String) : SExpr := .list [.symbol kind.toList, .text content.toList]

def symbols (first second : String) : SExpr := .list [.symbol first.toList, .symbol second.toList]

def expression (kind content : String) : SExpr := .list [.symbol kind.toList, .raw content.toList]

def remote (kind content : String) : SExpr :=
  .list [.symbol "remote".toList, .symbol kind.toList, .text content.toList]

def defaultRule : Rule := ⟨false, "default".toList, []⟩

def systemRule : Rule :=
  ⟨true, "file-read*".toList,
    [ literal "literal" "/",
      literal "subpath" "/nix/store",
      literal "subpath" "/nix/var/nix/daemon-socket",
      literal "subpath" "/bin",
      literal "subpath" "/usr/bin",
      literal "subpath" "/usr/lib",
      literal "subpath" "/usr/share",
      literal "subpath" "/System",
      literal "subpath" "/Library/Apple",
      literal "subpath" "/private/etc",
      literal "subpath" "/private/var/db/timezone",
      literal "subpath" "/dev"]⟩

def settingsRule : Rule := ⟨false, "file-read*".toList, [literal "subpath" "/private/etc/nix"]⟩

def deviceRule : Rule :=
  ⟨true, "file-write*".toList,
    [ literal "literal" "/dev/null",
      literal "literal" "/dev/zero",
      literal "literal" "/dev/tty",
      expression "regex" "^/dev/fd/"]⟩

def baseRules : List Rule :=
  [ defaultRule,
    ⟨true, "process-fork".toList, []⟩,
    ⟨true, "process-exec".toList, []⟩,
    ⟨true, "signal".toList, [symbols "target" "same-sandbox"]⟩,
    ⟨true, "process-info*".toList, [symbols "target" "same-sandbox"]⟩,
    ⟨true, "sysctl-read".toList, []⟩,
    ⟨true, "user-preference-read".toList, []⟩,
    ⟨true, "ipc-posix-sem".toList, []⟩,
    ⟨true, "ipc-posix-shm".toList, []⟩,
    ⟨true, "pseudo-tty".toList, []⟩,
    ⟨true, "file-ioctl".toList, [literal "subpath" "/dev"]⟩,
    ⟨true, "mach-lookup".toList,
      [ literal "global-name" "com.apple.system.opendirectoryd.libinfo",
        literal "global-name" "com.apple.system.notification_center",
        literal "global-name" "com.apple.system.logger",
        literal "global-name" "com.apple.logd",
        literal "global-name" "com.apple.SecurityServer",
        literal "global-name" "com.apple.trustd.agent"]⟩,
    ⟨true, "file-read-metadata".toList, []⟩,
    systemRule,
    settingsRule,
    deviceRule]

def networkRules : List Rule :=
  [ ⟨true, "system-socket".toList, []⟩,
    ⟨true, "network-outbound".toList, []⟩,
    ⟨false, "network-outbound".toList, [remote "ip" "localhost:*"]⟩,
    ⟨false, "network-outbound".toList, [symbols "remote" "unix-socket"]⟩,
    ⟨true, "mach-lookup".toList,
      [ literal "global-name" "com.apple.dnssd.service",
        literal "global-name" "com.apple.SystemConfiguration.configd"]⟩]

-- A literal is cheap to compare with its characters, and dear to take apart by evaluation.
theorem read_fixedLines :
    SExpr.Reader.start.read (joinLines baseProfile) = some ⟨symbols "version" "1" :: baseRules.map Rule.form, [], .blank⟩ ∧
      SExpr.Reader.start.read (joinLines networkProfile) = some ⟨networkRules.map Rule.form, [], .blank⟩ := by
  simp only [joinLines, baseProfile, networkProfile, List.flatMap_cons, List.flatMap_nil, baseRules, networkRules,
    defaultRule, systemRule, settingsRule, deviceRule, literal, expression, remote, symbols]
  repeat rw [String.toList_ofList]
  decide +kernel

theorem isName_of_mem : ∀ name ∈ ["allow", "deny", "subpath", "file-read*", "file-write*", "network-outbound", "remote",
    "unix-socket", "path-literal"], SExpr.IsName name.toList := by
  simp only [List.forall_mem_cons, List.not_mem_nil, false_imp_iff, implies_true, and_true]
  repeat rw [String.toList_ofList]
  decide +kernel

/-! The profile as a whole reads as the rules that are meant, whatever the paths contain. -/

def pathRule (allows : Bool) (operation : String) (paths : List UnixPath) : Rule :=
  ⟨allows, operation.toList, paths.map fun path => .list [.symbol "subpath".toList, .text path.text]⟩

def gitRules (git : UnixPath) : List Rule := [pathRule true "file-read*" [git], pathRule false "file-write*" [git]]

def daemonRule : Rule :=
  ⟨true, "network-outbound".toList,
    [.list [.symbol "remote".toList, .symbol "unix-socket".toList,
      .list [.symbol "path-literal".toList, .text nixDaemonSocket.text]]]⟩

theorem replace_cons (character : Char) (others : List Char) (first : Char) (rest : List Char) :
    replace character others (first :: rest) =
      (if first = character then others else [first]) ++ replace character others rest := List.flatMap_cons

theorem replace_append (character : Char) (others first second : List Char) :
    replace character others (first ++ second) = replace character others first ++ replace character others second :=
  List.flatMap_append

theorem quote_eq (path : UnixPath) : quote path = SExpr.quote path.text := by
  have escaped : ∀ text : List Char, replace '"' ['\\', '"'] (replace '\\' ['\\', '\\'] text) =
      text.flatMap fun character => if character = '\\' ∨ character = '"' then ['\\', character] else [character] := by
    intro text
    induction text with
    | nil => rfl
    | cons character rest ih =>
      rw [replace_cons, replace_append, ih, List.flatMap_cons]
      by_cases backslash : character = '\\'
      · simp [backslash, replace]
      · by_cases double : character = '"'
        · simp [double, replace]
        · simp [backslash, double, replace]
  rw [quote, escaped, SExpr.quote]

theorem render_pathRule_one (allows : Bool) (operation : String) (path : UnixPath) :
    (pathRule allows operation [path]).form.render =
      '(' :: (if allows then "allow".toList else "deny".toList) ++ ' ' :: operation.toList ++ " (subpath ".toList ++
        quote path ++ "))".toList := by
  simp [Rule.form, pathRule, SExpr.render, SExpr.renderItems, quote_eq]

theorem render_pathRule_two (operation : String) (first second : UnixPath) :
    (pathRule true operation [first, second]).form.render =
      "(allow ".toList ++ operation.toList ++ " (subpath ".toList ++ quote first ++ ") (subpath ".toList ++
        quote second ++ "))".toList := by
  simp [Rule.form, pathRule, SExpr.render, SExpr.renderItems, quote_eq]

theorem plain_pathRule (allows : Bool) {operation : String} (valid : SExpr.IsName operation.toList)
    (paths : List UnixPath) : (pathRule allows operation paths).form.Plain := by
  refine .list fun item member => ?_
  rcases List.mem_cons.mp member with rfl | member
  · cases allows with
    | false => exact .symbol (isName_of_mem "deny" (by simp))
    | true => exact .symbol (isName_of_mem "allow" (by simp))
  rcases List.mem_cons.mp member with rfl | member
  · exact .symbol valid
  obtain ⟨path, -, rfl⟩ := List.mem_map.mp member
  refine .list fun part listed => ?_
  rcases List.mem_cons.mp listed with rfl | listed
  · exact .symbol (isName_of_mem "subpath" (by simp))
  · rw [List.mem_singleton.mp listed]
    exact .text path.text

theorem plain_daemonRule : daemonRule.form.Plain := by
  refine .list fun item member => ?_
  simp only [daemonRule, List.mem_cons, List.not_mem_nil, or_false] at member
  rcases member with rfl | rfl | rfl
  · exact .symbol (isName_of_mem "allow" (by simp))
  · exact .symbol (isName_of_mem "network-outbound" (by simp))
  refine .list fun part listed => ?_
  simp only [List.mem_cons, List.not_mem_nil, or_false] at listed
  rcases listed with rfl | rfl | rfl
  · exact .symbol (isName_of_mem "remote" (by simp))
  · exact .symbol (isName_of_mem "unix-socket" (by simp))
  refine .list fun last listed => ?_
  simp only [List.mem_cons, List.not_mem_nil, or_false] at listed
  rcases listed with rfl | rfl
  · exact .symbol (isName_of_mem "path-literal" (by simp))
  · exact .text _

section Rules

variable (canonical : UnixPath → UnixPath) (root : UnixPath) (gitPaths : List UnixPath) (tmp : UnixPath) (network : Bool)

def pathRules : List Rule :=
  [pathRule true "file-read*" [canonical root, tmp], pathRule true "file-write*" [canonical root, tmp]] ++
    (gitDirs canonical root gitPaths).flatMap gitRules

def profileRules : List Rule :=
  baseRules ++ pathRules canonical root gitPaths tmp ++ (if network then networkRules else []) ++ [daemonRule]

theorem renderLines_append (first second : List SExpr) :
    SExpr.renderLines (first ++ second) = SExpr.renderLines first ++ SExpr.renderLines second := List.flatMap_append

theorem line_of_pieces {head verdict operation inside path closing line : List Char}
    (opens : head = '(' :: verdict ++ ' ' :: operation ++ inside) (closes : line = closing ++ ['\n']) :
    head ++ path ++ line = '(' :: verdict ++ ' ' :: operation ++ inside ++ path ++ closing ++ ['\n'] := by
  rw [opens, closes, List.append_assoc _ closing]

theorem closing_eq : "))\n".toList = "))".toList ++ ['\n'] := by
  repeat rw [String.toList_ofList]
  rfl

theorem gitLines_eq (git : UnixPath) : gitLines git = SExpr.renderLines ((gitRules git).map Rule.form) := by
  have read : "(allow file-read* (subpath ".toList =
      '(' :: "allow".toList ++ ' ' :: "file-read*".toList ++ " (subpath ".toList := by
    repeat rw [String.toList_ofList]
    rfl
  have write : "(deny file-write* (subpath ".toList =
      '(' :: "deny".toList ++ ' ' :: "file-write*".toList ++ " (subpath ".toList := by
    repeat rw [String.toList_ofList]
    rfl
  have allowed := congrArg (· ++ ['\n']) (render_pathRule_one true "file-read*" git)
  have denied := congrArg (· ++ ['\n']) (render_pathRule_one false "file-write*" git)
  have lines := congrArg₂ (· ++ ·) ((@line_of_pieces _ _ _ _ (quote git) _ _ read closing_eq).trans allowed.symm)
    ((@line_of_pieces _ _ _ _ (quote git) _ _ write closing_eq).trans denied.symm)
  refine lines.trans ?_
  rw [gitRules, SExpr.renderLines, List.map_cons, List.map_cons, List.map_nil, List.flatMap_cons, List.flatMap_cons,
    List.flatMap_nil, List.append_nil]

theorem checkoutLine_eq (operation : String) {head : List Char} (path : UnixPath)
    (opens : head = "(allow ".toList ++ operation.toList ++ " (subpath ".toList) :
    head ++ quote path ++ ") (subpath ".toList ++ quote tmp ++ "))\n".toList =
      (pathRule true operation [path, tmp]).form.render ++ ['\n'] := by
  rw [render_pathRule_two, opens, closing_eq, List.append_assoc _ "))".toList]

theorem daemonLine_eq :
    "(allow network-outbound (remote unix-socket (path-literal ".toList ++ quote nixDaemonSocket ++ ")))\n".toList =
      daemonRule.form.render ++ ['\n'] := by
  decide +kernel

theorem profile_eq : profile canonical root gitPaths tmp network =
    joinLines baseProfile ++ SExpr.renderLines ((pathRules canonical root gitPaths tmp).map Rule.form) ++
      (if network then joinLines networkProfile else []) ++ SExpr.renderLines [daemonRule.form] := by
  have gits : (gitDirs canonical root gitPaths).flatMap gitLines =
      SExpr.renderLines (((gitDirs canonical root gitPaths).flatMap gitRules).map Rule.form) := by
    induction gitDirs canonical root gitPaths with
    | nil => rfl
    | cons git rest ih =>
      rw [List.flatMap_cons, List.flatMap_cons, List.map_append, renderLines_append, ih, gitLines_eq]
  have readable : "(allow file-read* (subpath ".toList = "(allow ".toList ++ "file-read*".toList ++ " (subpath ".toList := by
    repeat rw [String.toList_ofList]
    rfl
  have writable : "(allow file-write* (subpath ".toList =
      "(allow ".toList ++ "file-write*".toList ++ " (subpath ".toList := by
    repeat rw [String.toList_ofList]
    rfl
  have read := checkoutLine_eq tmp "file-read*" (canonical root) readable
  have write := checkoutLine_eq tmp "file-write*" (canonical root) writable
  rw [profile, read, write, gits, daemonLine_eq, pathRules, List.map_append, renderLines_append]
  simp only [SExpr.renderLines, List.map_cons, List.map_nil, List.flatMap_cons, List.flatMap_nil, List.append_nil,
    List.append_assoc]

theorem plain_pathRules : ∀ form ∈ (pathRules canonical root gitPaths tmp).map Rule.form, form.Plain := by
  have read := isName_of_mem "file-read*" (by simp)
  have write := isName_of_mem "file-write*" (by simp)
  intro form member
  obtain ⟨rule, listed, rfl⟩ := List.mem_map.mp member
  rcases List.mem_append.mp listed with fixed | git
  · simp only [List.mem_cons, List.not_mem_nil, or_false] at fixed
    rcases fixed with rfl | rfl
    · exact plain_pathRule true read _
    · exact plain_pathRule true write _
  · obtain ⟨git, -, listed⟩ := List.mem_flatMap.mp git
    simp only [gitRules, List.mem_cons, List.not_mem_nil, or_false] at listed
    rcases listed with rfl | rfl
    · exact plain_pathRule true read _
    · exact plain_pathRule false write _

theorem readAll_profile : SExpr.readAll (profile canonical root gitPaths tmp network) =
    some (symbols "version" "1" :: (profileRules canonical root gitPaths tmp network).map Rule.form) := by
  have fixed : ∀ done : List SExpr,
      (⟨done, [], .blank⟩ : SExpr.Reader).read (if network then joinLines networkProfile else []) =
      some ⟨done ++ (if network then networkRules else []).map Rule.form, [], .blank⟩ := by
    intro done
    cases network with
    | false =>
      simp only [Bool.false_eq_true, if_false, List.map_nil, List.append_nil]
      rfl
    | true => exact SExpr.Reader.read_done read_fixedLines.2 done
  rw [SExpr.readAll, profile_eq, SExpr.Reader.read_append, SExpr.Reader.read_append, SExpr.Reader.read_append,
    read_fixedLines.1, Option.bind_some, SExpr.Reader.read_renderLines (plain_pathRules canonical root gitPaths tmp),
    Option.bind_some, fixed, Option.bind_some,
    SExpr.Reader.read_renderLines fun form member => List.mem_singleton.mp member ▸ plain_daemonRule]
  simp only [profileRules, List.map_append, List.cons_append, List.map_cons, List.map_nil]

end Rules

theorem ofForm_form (rule : Rule) : Rule.ofForm rule.form = some rule := by
  have differ : "deny".toList ≠ "allow".toList := by decide
  obtain ⟨allows, operation, filters⟩ := rule
  cases allows with
  | false =>
    simp only [Rule.form, Rule.ofForm, Bool.false_eq_true, if_false]
    rw [if_neg differ, if_pos trivial]
  | true =>
    simp only [Rule.form, Rule.ofForm, if_true]

theorem decides_profile (canonical : UnixPath → UnixPath) (root : UnixPath) (gitPaths : List UnixPath) (tmp : UnixPath)
    (network : Bool) (request : SandboxRequest) : decides (profile canonical root gitPaths tmp network) request =
      some (evaluate request false (profileRules canonical root gitPaths tmp network)) := by
  have header : Rule.ofForm (symbols "version" "1") = none := by decide
  have rules : ∀ rules : List Rule, (rules.map Rule.form).filterMap Rule.ofForm = rules := by
    intro rules
    rw [List.filterMap_map]
    refine (List.filterMap_congr fun rule _ => ofForm_form rule).trans ?_
    exact List.filterMap_some
  rw [decides, readAll_profile, Option.map_some, List.filterMap_cons_none header, rules]

variable {request : SandboxRequest} {allowed : Bool}

theorem evaluate_append (first second : List Rule) :
    evaluate request allowed (first ++ second) = evaluate request (evaluate request allowed first) second :=
  List.foldl_append

theorem evaluate_skip {rules : List Rule} (apart : ∀ rule ∈ rules, rule.isAbout request = false) :
    evaluate request allowed rules = allowed := by
  induction rules with
  | nil => rfl
  | cons rule rest ih =>
    rw [evaluate, List.foldl_cons, apart rule List.mem_cons_self]
    exact ih fun other member => apart other (List.mem_cons_of_mem _ member)

/-- Whether a pattern can be about an operation that begins with the stem. -/
def mayCover (stem pattern : List Char) : Bool :=
  pattern = "default".toList || stem.isPrefixOf pattern ||
    (pattern.getLast? = some '*' && (pattern.dropLast.isPrefixOf stem || stem.isPrefixOf pattern.dropLast))

theorem mayCover_of_covers {stem pattern operation : List Char} (begins : stem <+: operation)
    (about : covers pattern operation = true) : mayCover stem pattern = true := by
  simp only [covers, mayCover, Bool.or_eq_true, Bool.and_eq_true, decide_eq_true_eq, List.isPrefixOf_iff_prefix] at about ⊢
  rcases about with (whole | same) | ⟨star, part⟩
  · exact Or.inl (Or.inl whole)
  · exact Or.inl (Or.inr (same ▸ begins))
  · exact Or.inr ⟨star, List.prefix_or_prefix_of_prefix part begins⟩

theorem not_isAbout_of_stem {stem : List Char} (begins : stem <+: request.operation) {rule : Rule}
    (apart : mayCover stem rule.operation = false) : rule.isAbout request = false := by
  rw [Rule.isAbout, Bool.and_eq_false_iff]
  refine Or.inl (Bool.eq_false_iff.mpr fun about => ?_)
  rw [mayCover_of_covers begins about] at apart
  cases apart

theorem evaluate_filter {stem : List Char} (begins : stem <+: request.operation) (rules : List Rule) :
    evaluate request allowed rules = evaluate request allowed (rules.filter fun rule => mayCover stem rule.operation) := by
  induction rules generalizing allowed with
  | nil => rfl
  | cons rule rest ih =>
    cases relevant : mayCover stem rule.operation with
    | true =>
      rw [List.filter_cons, if_pos relevant]
      exact ih
    | false =>
      rw [List.filter_cons, if_neg (by rw [relevant]; nofun), ← ih]
      have skipped : evaluate request allowed [rule] = allowed :=
        evaluate_skip fun other member => List.mem_singleton.mp member ▸ not_isAbout_of_stem begins relevant
      exact (evaluate_append [rule] rest).trans (congrArg (evaluate request · rest) skipped)

theorem covers_default (operation : List Char) : covers "default".toList operation = true := by
  simp [covers]

theorem covers_star {stem operation : List Char} (begins : stem <+: operation) :
    covers (stem ++ ['*']) operation = true := by
  simp [covers, List.isPrefixOf_iff_prefix.mpr begins]

theorem isAbout_pathRule {operation : String} (about : covers operation.toList request.operation = true) {path : List Char}
    (file : request.target = .file path) (allows : Bool) (first : UnixPath) (rest : List UnixPath) :
    (pathRule allows operation (first :: rest)).isAbout request = true ↔
      ∃ base ∈ first :: rest, Under base.text path := by
  have matched : ∀ base : UnixPath, filterMatches request.target (.list [.symbol "subpath".toList, .text base.text]) =
      decide (Under base.text path) := by
    intro base
    have other : ("subpath".toList = "literal".toList) = False := eq_false (by decide)
    rw [file, filterMatches]
    simp only [other, decide_false, Bool.false_and, Bool.false_or, decide_true, Bool.true_and]
  simp only [Rule.isAbout, pathRule, about, Bool.true_and, List.map_cons, List.isEmpty_cons, Bool.false_or, List.any_cons,
    List.any_map, matched, Bool.or_eq_true, decide_eq_true_eq, List.any_eq_true, Function.comp_apply, List.mem_cons,
    exists_eq_or_imp]

theorem evaluate_cons (rule : Rule) (rest : List Rule) : evaluate request allowed (rule :: rest) =
    evaluate request (if rule.isAbout request then rule.allows else allowed) rest := rfl

theorem evaluate_default (rest : List Rule) :
    evaluate request allowed (defaultRule :: rest) = evaluate request false rest := by
  have about : defaultRule.isAbout request = true := by
    rw [Rule.isAbout, defaultRule, covers_default]
    rfl
  rw [evaluate_cons, if_pos about]
  rfl

section Files

variable {operation path : List Char}

/-- The files that everybody may write. -/
def DeviceFile (path : List Char) : Prop :=
  path ∈ ["/dev/null".toList, "/dev/zero".toList, "/dev/tty".toList] ∨ "/dev/fd/".toList <+: path

def systemDirs : List String :=
  [ "/nix/store", "/nix/var/nix/daemon-socket", "/bin", "/usr/bin", "/usr/lib", "/usr/share", "/System", "/Library/Apple",
    "/private/etc", "/private/var/db/timezone", "/dev"]

/-- What everybody may read. -/
def SystemFile (path : List Char) : Prop :=
  (path = "/".toList ∨ ∃ dir ∈ systemDirs, Under dir.toList path) ∧ ¬Under "/private/etc/nix".toList path

theorem filterMatches_subpath (content : String) :
    filterMatches (.file path) (literal "subpath" content) = decide (Under content.toList path) := by
  have other : ("subpath".toList = "literal".toList) = False := eq_false (by decide)
  simp only [-String.reduceToList, filterMatches, literal, other, decide_false, Bool.false_and, Bool.false_or, decide_true,
    Bool.true_and]

theorem filterMatches_literal (content : String) :
    filterMatches (.file path) (literal "literal" content) = decide (path = content.toList) := by
  have other : ("literal".toList = "subpath".toList) = False := eq_false (by decide)
  simp only [-String.reduceToList, filterMatches, literal, other, decide_false, Bool.false_and, Bool.or_false, decide_true,
    Bool.true_and, eq_comm]

theorem isAbout_iff {rule : Rule} (about : covers rule.operation request.operation = true) (some_ : rule.filters ≠ []) :
    rule.isAbout request = true ↔ ∃ filter ∈ rule.filters, filterMatches request.target filter = true := by
  rw [Rule.isAbout, about, Bool.true_and, List.isEmpty_eq_false_iff.mpr some_, Bool.false_or, List.any_eq_true]

theorem isAbout_deviceRule (about : covers "file-write*".toList operation = true) :
    deviceRule.isAbout ⟨operation, .file path⟩ = true ↔ DeviceFile path := by
  have named : filterMatches (.file path) (expression "regex" "^/dev/fd/") = true ↔ "/dev/fd/".toList <+: path :=
    List.isPrefixOf_iff_prefix
  rw [isAbout_iff about (by decide)]
  simp only [-String.reduceToList, deviceRule, List.mem_cons, List.not_mem_nil, or_false, exists_eq_or_imp, exists_eq_left,
    filterMatches_literal, named, decide_eq_true_eq, DeviceFile, or_assoc]

theorem isAbout_systemRule (about : covers "file-read*".toList operation = true) :
    systemRule.isAbout ⟨operation, .file path⟩ = true ↔
      path = "/".toList ∨ ∃ dir ∈ systemDirs, Under dir.toList path := by
  have filters : systemRule.filters = literal "literal" "/" :: systemDirs.map (literal "subpath") := rfl
  rw [isAbout_iff about (by decide), filters]
  simp only [-String.reduceToList, List.mem_cons, List.mem_map, exists_eq_or_imp, filterMatches_literal, decide_eq_true_eq,
    exists_exists_and_eq_and, filterMatches_subpath]

theorem isAbout_settingsRule (about : covers "file-read*".toList operation = true) :
    settingsRule.isAbout ⟨operation, .file path⟩ = true ↔ Under "/private/etc/nix".toList path := by
  rw [isAbout_iff about (by decide)]
  simp only [-String.reduceToList, settingsRule, List.mem_singleton, exists_eq_left, filterMatches_subpath,
    decide_eq_true_eq]

instance (path : List Char) : Decidable (DeviceFile path) := inferInstanceAs (Decidable (_ ∨ _))

instance (path : List Char) : Decidable (SystemFile path) := inferInstanceAs (Decidable (_ ∧ _))

theorem evaluate_allow {rule : Rule} (allows : rule.allows = true) :
    evaluate request allowed [rule] = (allowed || rule.isAbout request) := by
  rw [evaluate_cons, allows]
  cases rule.isAbout request <;> simp [evaluate]

theorem evaluate_deny {rule : Rule} (denies : rule.allows = false) :
    evaluate request allowed [rule] = (allowed && !rule.isAbout request) := by
  rw [evaluate_cons, denies]
  cases rule.isAbout request <;> simp [evaluate]

theorem isAbout_gitRule {operation : String} {wanted : List Char} (about : covers operation.toList wanted = true)
    (allows : Bool) (git : UnixPath) :
    (pathRule allows operation [git]).isAbout ⟨wanted, .file path⟩ = decide (Under git.text path) := by
  have single := @isAbout_pathRule ⟨wanted, .file path⟩ operation about path rfl allows git []
  simp only [List.mem_singleton, exists_eq_left] at single
  exact Bool.eq_iff_iff.mpr (single.trans decide_eq_true_iff.symm)

theorem relevant_fixedRules :
    baseRules.filter (fun rule => mayCover "file-write".toList rule.operation) = [defaultRule, deviceRule] ∧
      baseRules.filter (fun rule => mayCover "file-read-data".toList rule.operation) =
        [defaultRule] ++ [systemRule] ++ [settingsRule] ∧
      baseRules.filter (fun rule => mayCover "network-outbound".toList rule.operation) = [defaultRule] ∧
      networkRules.filter (fun rule => mayCover "network-outbound".toList rule.operation) =
        [⟨true, "network-outbound".toList, []⟩, ⟨false, "network-outbound".toList, [remote "ip" "localhost:*"]⟩,
          ⟨false, "network-outbound".toList, [symbols "remote" "unix-socket"]⟩] ∧
      (networkRules ++ [daemonRule]).filter (fun rule => mayCover "file-write".toList rule.operation) = [] ∧
      (networkRules ++ [daemonRule]).filter (fun rule => mayCover "file-read-data".toList rule.operation) = [] := by
  decide +kernel

theorem evaluate_baseRules_write (begins : "file-write".toList <+: operation) :
    evaluate ⟨operation, .file path⟩ allowed baseRules = decide (DeviceFile path) := by
  have relevant := relevant_fixedRules.1
  have device := @isAbout_deviceRule operation path (covers_star begins)
  rw [@evaluate_filter ⟨operation, .file path⟩ _ _ begins, relevant, evaluate_default, evaluate_allow rfl, Bool.false_or]
  exact Bool.eq_iff_iff.mpr (device.trans decide_eq_true_iff.symm)

theorem evaluate_baseRules_read :
    evaluate ⟨"file-read-data".toList, .file path⟩ allowed baseRules = decide (SystemFile path) := by
  have relevant := relevant_fixedRules.2.1
  have covered : covers "file-read*".toList "file-read-data".toList = true := by decide
  have system := @isAbout_systemRule _ path covered
  have settings := @isAbout_settingsRule _ path covered
  rw [@evaluate_filter ⟨_, .file path⟩ _ _ List.prefix_rfl, relevant, evaluate_append, evaluate_append,
    evaluate_deny rfl, evaluate_allow rfl, evaluate_default]
  refine Bool.eq_iff_iff.mpr ?_
  rw [Bool.and_eq_true, Bool.not_eq_true', ← Bool.not_eq_true, settings, decide_eq_true_iff, SystemFile]
  exact and_congr_left' ((Bool.eq_iff_iff.mp (Bool.false_or _)).trans system)

theorem evaluate_gitRules_write (begins : "file-write".toList <+: operation) (gits : List UnixPath) :
    evaluate ⟨operation, .file path⟩ allowed (gits.flatMap gitRules) =
      (allowed && gits.all fun git => !decide (Under git.text path)) := by
  have apart : mayCover "file-write".toList "file-read*".toList = false := by decide
  have covered : covers "file-write*".toList operation = true := covers_star begins
  induction gits generalizing allowed with
  | nil => exact (Bool.and_true allowed).symm
  | cons git rest ih =>
    have skipped : (pathRule true "file-read*" [git]).isAbout ⟨operation, .file path⟩ = false :=
      not_isAbout_of_stem begins apart
    rw [List.flatMap_cons, evaluate_append, ih, gitRules, evaluate_cons, skipped, evaluate_deny rfl,
      isAbout_gitRule covered]
    simp [Bool.and_assoc]

theorem evaluate_gitRules_read (gits : List UnixPath) :
    evaluate ⟨"file-read-data".toList, .file path⟩ allowed (gits.flatMap gitRules) =
      (allowed || gits.any fun git => decide (Under git.text path)) := by
  have covered : covers "file-read*".toList "file-read-data".toList = true := by decide
  have apart : mayCover "file-read-data".toList "file-write*".toList = false := by decide
  induction gits generalizing allowed with
  | nil => exact (Bool.or_false allowed).symm
  | cons git rest ih =>
    have skipped : evaluate ⟨"file-read-data".toList, .file path⟩ (allowed || decide (Under git.text path))
        [pathRule false "file-write*" [git]] = (allowed || decide (Under git.text path)) :=
      evaluate_skip fun rule member => List.mem_singleton.mp member ▸ not_isAbout_of_stem List.prefix_rfl apart
    have first : evaluate ⟨"file-read-data".toList, .file path⟩ allowed [pathRule true "file-read*" [git]] =
        (allowed || decide (Under git.text path)) := by
      rw [evaluate_allow rfl, isAbout_gitRule covered]
    have both : gitRules git = [pathRule true "file-read*" [git]] ++ [pathRule false "file-write*" [git]] := rfl
    rw [List.flatMap_cons, evaluate_append, ih, both, evaluate_append, first, skipped, List.any_cons, Bool.or_assoc]

variable (canonical : UnixPath → UnixPath) (root : UnixPath) (gitPaths : List UnixPath) (tmp : UnixPath) (network : Bool)

theorem evaluate_profileRules {stem : List Char} (begins : stem <+: operation)
    (apart : ((networkRules ++ [daemonRule]).filter fun rule => mayCover stem rule.operation) = []) :
    evaluate ⟨operation, .file path⟩ false (profileRules canonical root gitPaths tmp network) =
      evaluate ⟨operation, .file path⟩ (evaluate ⟨operation, .file path⟩ false baseRules)
        (pathRules canonical root gitPaths tmp) := by
  have later : ∀ rule ∈ (if network then networkRules else []) ++ [daemonRule],
      rule.isAbout ⟨operation, .file path⟩ = false := by
    intro rule member
    have listed : rule ∈ networkRules ++ [daemonRule] := by
      rcases List.mem_append.mp member with conditional | daemon
      · cases network with
        | false => exact absurd conditional List.not_mem_nil
        | true => exact List.mem_append_left _ conditional
      · exact List.mem_append_right _ daemon
    exact not_isAbout_of_stem begins (Bool.eq_false_iff.mpr fun may =>
      absurd (List.mem_filter.mpr ⟨listed, may⟩) (apart ▸ List.not_mem_nil))
  rw [profileRules, List.append_assoc, evaluate_append, evaluate_skip later, evaluate_append]

theorem isAbout_checkoutRule {operation : String} {wanted : List Char} (about : covers operation.toList wanted = true) :
    (pathRule true operation [canonical root, tmp]).isAbout ⟨wanted, .file path⟩ =
      (decide (Under (canonical root).text path) || decide (Under tmp.text path)) := by
  have both := @isAbout_pathRule ⟨wanted, .file path⟩ operation about path rfl true (canonical root) [tmp]
  simp only [List.mem_cons, List.not_mem_nil, or_false, exists_eq_or_imp, exists_eq_left] at both
  exact Bool.eq_iff_iff.mpr (both.trans (by simp))

/-- Whatever characters the paths are made of, the profile is read as its rules. What is checked
writes below the checkout and its own temporary directory and to a few devices, and nowhere
below a git directory; it reads these, the git directories and the system. -/
theorem profile_files (path : List Char) :
    SExpr.readAll (profile canonical root gitPaths tmp network) =
      some (symbols "version" "1" :: (profileRules canonical root gitPaths tmp network).map Rule.form) ∧
      (∀ operation, "file-write".toList <+: operation →
        (decides (profile canonical root gitPaths tmp network) ⟨operation, .file path⟩ = some true ↔
          (DeviceFile path ∨ Under (canonical root).text path ∨ Under tmp.text path) ∧
            ∀ git ∈ gitDirs canonical root gitPaths, ¬Under git.text path)) ∧
      (decides (profile canonical root gitPaths tmp network) ⟨"file-read-data".toList, .file path⟩ = some true ↔
        SystemFile path ∨ Under (canonical root).text path ∨ Under tmp.text path ∨
          ∃ git ∈ gitDirs canonical root gitPaths, Under git.text path) := by
  obtain ⟨-, -, -, -, apartWrite, apartRead⟩ := relevant_fixedRules
  refine ⟨readAll_profile canonical root gitPaths tmp network, fun operation begins => ?_, ?_⟩
  · have covered : covers "file-write*".toList operation = true := covers_star begins
    have apart : mayCover "file-write".toList "file-read*".toList = false := by decide
    have skipped : (pathRule true "file-read*" [canonical root, tmp]).isAbout ⟨operation, .file path⟩ = false :=
      not_isAbout_of_stem begins apart
    rw [decides_profile, evaluate_profileRules canonical root gitPaths tmp network begins apartWrite,
      evaluate_baseRules_write begins, pathRules, evaluate_append, evaluate_gitRules_write begins, evaluate_cons, skipped,
      evaluate_allow rfl, isAbout_checkoutRule canonical root tmp covered]
    simp
  · have covered : covers "file-read*".toList "file-read-data".toList = true := by decide
    have apart : mayCover "file-read-data".toList "file-write*".toList = false := by decide
    have skipped : ∀ allowed : Bool, evaluate ⟨"file-read-data".toList, .file path⟩ allowed
        [pathRule true "file-write*" [canonical root, tmp]] = allowed :=
      fun allowed => evaluate_skip fun rule member =>
        List.mem_singleton.mp member ▸ not_isAbout_of_stem List.prefix_rfl apart
    have split : ∀ first second : Rule, [first, second] = [first] ++ [second] := fun _ _ => rfl
    rw [decides_profile, evaluate_profileRules canonical root gitPaths tmp network List.prefix_rfl apartRead,
      evaluate_baseRules_read, pathRules, evaluate_append, evaluate_gitRules_read, split, evaluate_append, skipped,
      evaluate_allow rfl, isAbout_checkoutRule canonical root tmp covered]
    simp [or_assoc]

/-- A checkout whose name ends a literal, if nobody escapes it. -/
theorem quoted_checkout (network : Bool) :
    decides (profile id ⟨"/src/a\") (subpath \"/".toList⟩ [] ⟨"/private/tmp/t".toList⟩ network)
      ⟨"file-write-data".toList, .file "/home/x".toList⟩ ≠ some true := by
  intro allowed
  have files := profile_files id ⟨"/src/a\") (subpath \"/".toList⟩ [] ⟨"/private/tmp/t".toList⟩ network "/home/x".toList
  have listed := ((files.2.1 "file-write-data".toList (by decide)).mp allowed).1
  exact absurd listed (by decide +kernel)

end Files

section Network

variable (canonical : UnixPath → UnixPath) (root : UnixPath) (gitPaths : List UnixPath) (tmp : UnixPath) (network : Bool)

def outbound (target : SandboxTarget) : SandboxRequest := ⟨"network-outbound".toList, target⟩

variable (target : SandboxTarget)

theorem evaluate_pathRules_outbound :
    evaluate (outbound target) allowed (pathRules canonical root gitPaths tmp) = allowed := by
  have read : mayCover "network-outbound".toList "file-read*".toList = false := by decide
  have write : mayCover "network-outbound".toList "file-write*".toList = false := by decide
  refine evaluate_skip fun rule listed => ?_
  rcases List.mem_append.mp listed with fixed | git
  · simp only [List.mem_cons, List.not_mem_nil, or_false] at fixed
    rcases fixed with rfl | rfl
    · exact not_isAbout_of_stem List.prefix_rfl read
    · exact not_isAbout_of_stem List.prefix_rfl write
  · obtain ⟨git, -, listed⟩ := List.mem_flatMap.mp git
    simp only [gitRules, List.mem_cons, List.not_mem_nil, or_false] at listed
    rcases listed with rfl | rfl
    · exact not_isAbout_of_stem List.prefix_rfl read
    · exact not_isAbout_of_stem List.prefix_rfl write

theorem evaluate_baseRules_outbound : evaluate (outbound target) allowed baseRules = false := by
  have relevant := relevant_fixedRules.2.2.1
  rw [@evaluate_filter (outbound target) _ "network-outbound".toList List.prefix_rfl, relevant, evaluate_default]
  rfl

theorem evaluate_networkRules :
    evaluate (outbound target) allowed networkRules = match target with
      | .file _ => true
      | .ip loopback => !loopback
      | .unixSocket _ => false := by
  have relevant := relevant_fixedRules.2.2.2.1
  rw [@evaluate_filter (outbound target) _ "network-outbound".toList List.prefix_rfl, relevant]
  cases target with
  | file path => rfl
  | ip loopback => cases loopback <;> rfl
  | unixSocket socket => rfl

/-- What is checked speaks to the daemon of Nix, and with the network to every host but `localhost`;
no other socket of the machine is open to it. -/
theorem profile_network (loopback : Bool) (socket : List Char) :
    (decides (profile canonical root gitPaths tmp network) (outbound (.ip loopback)) = some true ↔
      network = true ∧ loopback = false) ∧
      (decides (profile canonical root gitPaths tmp network) (outbound (.unixSocket socket)) = some true ↔
        socket = nixDaemonSocket.text) := by
  have before : ∀ target, evaluate (outbound target) false
      (baseRules ++ pathRules canonical root gitPaths tmp ++ if network then networkRules else []) =
      (network && match target with
        | .file _ => true
        | .ip loopback => !loopback
        | .unixSocket _ => false) := by
    intro target
    rw [evaluate_append, evaluate_append, evaluate_baseRules_outbound, evaluate_pathRules_outbound]
    cases network with
    | false => rfl
    | true => exact evaluate_networkRules target
  have host : daemonRule.isAbout (outbound (.ip loopback)) = false := rfl
  have known : daemonRule.isAbout (outbound (.unixSocket socket)) = (decide (nixDaemonSocket.text = socket) || false) := rfl
  have whole : ∀ target, evaluate (outbound target) false (profileRules canonical root gitPaths tmp network) =
      ((network && match target with
        | .file _ => true
        | .ip loopback => !loopback
        | .unixSocket _ => false) || daemonRule.isAbout (outbound target)) := by
    intro target
    rw [profileRules, evaluate_append, before, evaluate_allow rfl]
  rw [decides_profile, decides_profile, whole, whole, host, known]
  refine ⟨by simp, ?_⟩
  simp only [Bool.and_false, Bool.false_or, Bool.or_false, Option.some.injEq, decide_eq_true_eq]
  exact eq_comm

end Network

end Seatbelt

end EkaCI
