import EkaCI.Jobs.CachePermissions
import EkaCI.Lib.Collect
import Mathlib.Algebra.GroupWithZero.Nat
import Mathlib.Data.List.TakeWhile

/-! The command line of a push hook. The recorder names the output paths by a variable, and
the executor of the hooks puts its value into the argument that names it. -/

namespace EkaCI

open Lib

def maxExpandedArgLen : Nat := 1048576

def maxSubstitutionsPerArg : Nat := 1024

/-- Where a text names a byte, it is the first one of the character. -/
inductive EnvKeyError where
  | empty
  | start (key : String)
  | disallowed (letter : Char) (key : String)
  deriving DecidableEq

inductive ExpandError where
  | exceeded
  | dangling
  | unterminated
  | invalidName (error : EnvKeyError)
  | unknown (name : String)
  | unexpected (letter : Char)
  | tooMany

inductive HookCommandError where
  | emptyCommand
  | invalidKey (key : String) (error : EnvKeyError)
  | expand (index : Nat) (arg : String) (error : ExpandError)

def isKeyLetter (letter : Char) : Bool := letter.isAlphanum || letter = '_'

def validateEnvKey (key : String) : Except EnvKeyError Unit :=
  match key.toList with
  | [] => .error .empty
  | first :: rest =>
    if first.isAlpha || first = '_' then
      match rest.find? (!isKeyLetter ·) with
      | some letter => .error (.disallowed letter key)
      | none => .ok ()
    else .error (.start key)

/-- The length in bytes. -/
def utf8Len (text : List Char) : Nat := (text.map Char.utf8Size).sum

section Expand

variable (env : String → Option String)

/-- The token after a `$`: what it stands for, whether that is the value of a variable, and
what follows it. -/
def readToken : List Char → Except ExpandError (List Char × Bool × List Char)
  | [] => .error .dangling
  | '$' :: rest => .ok (['$'], false, rest)
  | '{' :: rest =>
    match rest.dropWhile (· ≠ '}') with
    | [] => .error .unterminated
    | _ :: after =>
      let name := String.ofList (rest.takeWhile (· ≠ '}'))
      match validateEnvKey name with
      | .error error => .error (.invalidName error)
      | .ok () =>
        match env name with
        | none => .error (.unknown name)
        | some value => .ok (value.toList, true, after)
  | letter :: rest =>
    if letter.isAlpha || letter = '_' then
      let name := String.ofList (letter :: rest.takeWhile isKeyLetter)
      match env name with
      | none => .error (.unknown name)
      | some value => .ok (value.toList, true, rest.dropWhile isKeyLetter)
    else .error (.unexpected letter)

theorem readToken_length {input value after : List Char} {substituted : Bool}
    (read : readToken env input = .ok (value, substituted, after)) : after.length < input.length := by
  unfold readToken at read
  split at read
  next => cases read
  next => cases read; simp
  next rest =>
    split at read
    next => cases read
    next closing remaining ended =>
      have shorter := (List.dropWhile_suffix (· ≠ '}') : rest.dropWhile (· ≠ '}') <:+ rest).length_le
      rw [ended, List.length_cons] at shorter
      dsimp only at read
      split at read
      next => cases read
      next =>
        split at read
        next => cases read
        next =>
          cases read
          rw [List.length_cons]
          omega
  next letter rest _ _ =>
    have shorter := (List.dropWhile_suffix isKeyLetter : rest.dropWhile isKeyLetter <:+ rest).length_le
    split at read
    next =>
      dsimp only at read
      split at read
      next => cases read
      next =>
        cases read
        exact Nat.lt_succ_of_le shorter
    next => cases read

/-- The loop over the input, with the output and the number of substitutions so far. -/
def expandFrom (input out : List Char) (subs : Nat) : Except ExpandError (List Char) :=
  match input with
  | [] => .ok out
  | letter :: rest =>
    if letter = '$' then
      match _token : readToken env rest with
      | .error error => .error error
      | .ok (value, substituted, after) =>
        let subs := if substituted then subs + 1 else subs
        if maxSubstitutionsPerArg < subs then .error .tooMany
        else if maxExpandedArgLen < utf8Len (out ++ value) then .error .exceeded
        else expandFrom after (out ++ value) subs
    else
      -- A run of other letters is copied at once.
      let out := out ++ letter :: rest.takeWhile (· ≠ '$')
      if maxExpandedArgLen < utf8Len out then .error .exceeded
      else expandFrom (rest.dropWhile (· ≠ '$')) out subs
termination_by input.length
decreasing_by
  · exact (readToken_length env _token).trans (Nat.lt_succ_self _)
  · exact Nat.lt_succ_of_le (List.dropWhile_suffix _).length_le

def expandVars (input : String) : Except ExpandError String := (expandFrom env input.toList [] 0).map String.ofList

variable {env}

theorem expandVars_plain {input : String} (plain : '$' ∉ input.toList) :
    expandVars env input = if maxExpandedArgLen < utf8Len input.toList then .error .exceeded else .ok input := by
  unfold expandVars
  cases text : input.toList with
  | nil =>
    have empty : input = String.ofList [] := by rw [← text, String.ofList_toList]
    rw [expandFrom, empty]
    rfl
  | cons letter rest =>
    rw [text, List.mem_cons, not_or] at plain
    have others : ∀ other ∈ rest, decide (other ≠ '$') = true := fun other member =>
      decide_eq_true fun same => plain.2 (same ▸ member)
    rw [expandFrom, if_neg (Ne.symm plain.1), List.takeWhile_eq_self_iff.mpr others,
      List.dropWhile_eq_nil_iff.mpr others, List.nil_append]
    dsimp only
    rw [← text]
    split
    next => rfl
    next =>
      rw [expandFrom, Except.map, String.ofList_toList]

theorem expandVars_outPaths : expandVars env "$OUT_PATHS" =
    match env "OUT_PATHS" with
    | none => .error (.unknown "OUT_PATHS")
    | some value => if maxExpandedArgLen < utf8Len value.toList then .error .exceeded else .ok value := by
  have text : "$OUT_PATHS".toList = '$' :: "OUT_PATHS".toList := by decide
  have read : readToken env "OUT_PATHS".toList =
      match env "OUT_PATHS" with
      | none => .error (.unknown "OUT_PATHS")
      | some value => .ok (value.toList, true, []) := rfl
  rw [expandVars, text, expandFrom, if_pos rfl]
  cases found : env "OUT_PATHS" with
  | none =>
    split
    next error token =>
      rw [read, found] at token
      cases token
      rfl
    next token =>
      rw [read, found] at token
      cases token
  | some value =>
    split
    next token =>
      rw [read, found] at token
      cases token
    next token =>
      rw [read, found] at token
      cases token
      dsimp only
      rw [if_neg (by decide), List.nil_append]
      split
      next => rfl
      next =>
        rw [expandFrom, Except.map, String.ofList_toList]

end Expand

/-- What the hook knows of its build. -/
structure HookContext where
  jobName : String
  isFod : Bool
  system : String
  pname : Option String
  buildLogPath : String
  commitSha : String

/-- The output paths of the drv as nix lists them; the drv stands in if it lists none. -/
def hookOutPaths (outputs : Option (List (String × String))) (drvPath : String) : List String :=
  match outputs with
  | some (output :: rest) => (output :: rest).map Prod.snd
  | _ => [drvPath]

/-- The variables in the order in which they are set; a later one takes the place of an
earlier one. -/
def buildHookEnv (context : HookContext) (drvPath : String) (outPaths : List String) (hook : PostBuildHook) :
    List (String × String) :=
  [("DRV_PATH", drvPath), ("OUT_PATHS", " ".intercalate outPaths), ("EKA_JOB_NAME", context.jobName),
    ("EKA_IS_FOD", if context.isFod then "true" else "false"), ("EKA_SYSTEM", context.system)] ++
  context.pname.toList.map (("EKA_PNAME", ·)) ++
  [("EKA_BUILD_LOG_PATH", context.buildLogPath), ("EKA_COMMIT_SHA", context.commitSha)] ++ hook.env

/-- The first key that is not valid, in some order of the map. -/
def validateKeys : List String → Except HookCommandError Unit
  | [] => .ok ()
  | key :: rest =>
    match validateEnvKey key with
    | .error error => .error (.invalidKey key error)
    | .ok () => validateKeys rest

def expandArgs (env : String → Option String) : Nat → List String → Except HookCommandError (List String)
  | _, [] => .ok []
  | index, arg :: rest =>
    match expandVars env arg with
    | .error error => .error (.expand index arg error)
    | .ok expanded => (expandArgs env (index + 1) rest).map (expanded :: ·)

/-- The program and the arguments that are spawned. -/
def runHookCommand (command : List String) (envVars : List (String × String)) :
    Except HookCommandError (List String) :=
  if command = [] then .error .emptyCommand
  else
    match validateKeys (envVars.map Prod.fst) with
    | .error error => .error error
    | .ok () => expandArgs (collect envVars) 0 command

section Argv

variable {env : String → Option String}

theorem validateKeys_eq_ok {keys : List String} :
    validateKeys keys = .ok () ↔ ∀ key ∈ keys, validateEnvKey key = .ok () := by
  induction keys with
  | nil => simp [validateKeys]
  | cons key rest ih =>
    unfold validateKeys
    cases valid : validateEnvKey key with
    | error error => simp [valid]
    | ok => simp [valid, ih]

theorem expandArgs_eq_ok {args argv : List String} {index : Nat} :
    expandArgs env index args = .ok argv ↔ List.Forall₂ (fun arg expanded => expandVars env arg = .ok expanded) args argv := by
  induction args generalizing argv index with
  | nil => simp [expandArgs, eq_comm]
  | cons arg rest ih =>
    unfold expandArgs
    rw [List.forall₂_cons_left_iff]
    cases first : expandVars env arg with
    | error error => simp
    | ok expanded =>
      constructor
      · intro done
        cases others : expandArgs env (index + 1) rest with
        | error error => simp [others, Except.map] at done
        | ok expandedRest =>
          simp only [others, Except.map, Except.ok.injEq] at done
          exact ⟨expanded, expandedRest, rfl, ih.mp others, done.symm⟩
      · rintro ⟨_, expandedRest, ⟨⟩, later, rfl⟩
        rw [ih.mpr later]
        rfl

theorem runHookCommand_eq_ok {command argv : List String} {envVars : List (String × String)} (some : command ≠ []) :
    runHookCommand command envVars = .ok argv ↔ (∀ entry ∈ envVars, validateEnvKey entry.1 = .ok ()) ∧
      List.Forall₂ (fun arg expanded => expandVars (collect envVars) arg = .ok expanded) command argv := by
  have keys : validateKeys (envVars.map Prod.fst) = .ok () ↔ ∀ entry ∈ envVars, validateEnvKey entry.1 = .ok () := by
    rw [validateKeys_eq_ok, List.forall_mem_map]
  rw [runHookCommand, if_neg some, ← keys, ← @expandArgs_eq_ok _ command argv 0]
  cases validateKeys (envVars.map Prod.fst) with
  | error error => simp
  | ok => simp

end Argv

def CacheType.fixedWords : CacheType → List String
  | .nixCopy => ["nix", "copy", "--to"]
  | .cachix => ["cachix", "push"]
  | .attic => ["attic", "push"]

/-- The words of the tool, the destination, and every output path as an argument. -/
def PushesEveryOutput {Source : Type} (cache : CacheConfig Source) (hook : PostBuildHook) (context : HookContext)
    (drvPath : String) (outputs : List (String × String)) : Prop :=
  ∃ listed, listed.Perm (outputs.map Prod.snd) ∧
    runHookCommand hook.command (buildHookEnv context drvPath (hookOutPaths (some outputs) drvPath) hook) =
      .ok (cache.cacheType.fixedWords ++ cache.destination :: listed)

/-- There is one output path, the credentials leave it alone, and the destination is
expanded to itself. -/
structure SinglyExpanded {Source : Type} (cache : CacheConfig Source) (hook : PostBuildHook) (context : HookContext)
    (drvPath : String) (outputs : List (String × String)) : Prop where
  keys : ∀ entry ∈ hook.env, validateEnvKey entry.1 = .ok ()
  destination : expandVars (collect (buildHookEnv context drvPath (outputs.map Prod.snd) hook)) cache.destination =
    .ok cache.destination
  output : ∃ path, outputs.map Prod.snd = [path] ∧ (collect hook.env "OUT_PATHS").getD path = path ∧
    utf8Len path.toList ≤ maxExpandedArgLen

section Push

variable {Source : Type} {cache : CacheConfig Source} {hook : PostBuildHook} {context : HookContext} {drvPath : String}
variable {load : Source → Option (List (String × String))} {env : String → Option String} {outPaths : List String}
  {outputs : List (String × String)}

theorem buildCachePushHook_command (built : buildCachePushHook load cache = some hook) :
    hook.command = cache.cacheType.fixedWords ++ [cache.destination, "$OUT_PATHS"] := by
  obtain ⟨credentials, -, rfl⟩ := Option.map_eq_some_iff.mp built
  cases cache.cacheType <;> rfl

theorem fixedWords_expand (cacheType : CacheType) :
    ∀ word ∈ cacheType.fixedWords, expandVars env word = .ok word := by
  have short : ∀ word ∈ cacheType.fixedWords, '$' ∉ word.toList ∧ utf8Len word.toList ≤ maxExpandedArgLen := by
    cases cacheType <;> decide
  intro word member
  rw [expandVars_plain (short word member).1, if_neg (Nat.not_lt.mpr (short word member).2)]

theorem buildHookEnv_keys :
    (∀ entry ∈ buildHookEnv context drvPath outPaths hook, validateEnvKey entry.1 = .ok ()) ↔
      ∀ entry ∈ hook.env, validateEnvKey entry.1 = .ok () := by
  constructor
  · intro valid entry member
    exact valid entry (List.mem_append_right _ member)
  · intro valid entry member
    rcases List.mem_append.mp member with own | custom
    · have listed : entry.1 ∈ ["DRV_PATH", "OUT_PATHS", "EKA_JOB_NAME", "EKA_IS_FOD", "EKA_SYSTEM", "EKA_PNAME",
          "EKA_BUILD_LOG_PATH", "EKA_COMMIT_SHA"] := by
        have key := List.mem_map_of_mem (f := Prod.fst) own
        cases name : context.pname with
        | none =>
          rw [name] at key
          have fewer : ["DRV_PATH", "OUT_PATHS", "EKA_JOB_NAME", "EKA_IS_FOD", "EKA_SYSTEM", "EKA_BUILD_LOG_PATH",
            "EKA_COMMIT_SHA"] ⊆ ["DRV_PATH", "OUT_PATHS", "EKA_JOB_NAME", "EKA_IS_FOD", "EKA_SYSTEM", "EKA_PNAME",
            "EKA_BUILD_LOG_PATH", "EKA_COMMIT_SHA"] := by decide
          exact fewer key
        | some pname =>
          rw [name] at key
          exact key
      have fixed : ∀ key ∈ ["DRV_PATH", "OUT_PATHS", "EKA_JOB_NAME", "EKA_IS_FOD", "EKA_SYSTEM", "EKA_PNAME",
          "EKA_BUILD_LOG_PATH", "EKA_COMMIT_SHA"], validateEnvKey key = .ok () := by decide
      exact fixed entry.1 listed
    · exact valid entry custom

theorem buildHookEnv_outPaths :
    collect (buildHookEnv context drvPath outPaths hook) "OUT_PATHS" =
      some ((collect hook.env "OUT_PATHS").getD (" ".intercalate outPaths)) := by
  have own : collect ([("DRV_PATH", drvPath), ("OUT_PATHS", " ".intercalate outPaths), ("EKA_JOB_NAME", context.jobName),
      ("EKA_IS_FOD", if context.isFod then "true" else "false"), ("EKA_SYSTEM", context.system)] ++
      context.pname.toList.map (("EKA_PNAME", ·)) ++
      [("EKA_BUILD_LOG_PATH", context.buildLogPath), ("EKA_COMMIT_SHA", context.commitSha)]) "OUT_PATHS" =
      some (" ".intercalate outPaths) := by
    cases context.pname <;> rfl
  rw [buildHookEnv, collect_append, own]
  cases collect hook.env "OUT_PATHS" <;> rfl

theorem forall₂_append_of_self {A : Type} {R : A → A → Prop} {words args argv : List A} (self : ∀ word ∈ words, R word word) :
    List.Forall₂ R (words ++ args) (words ++ argv) ↔ List.Forall₂ R args argv := by
  induction words with
  | nil => rfl
  | cons word rest ih =>
    obtain ⟨here, later⟩ := List.forall_mem_cons.mp self
    rw [List.cons_append, List.cons_append, List.forall₂_cons, ih later]
    exact and_iff_right here

theorem hookOutPaths_eq {path : String} (single : outputs.map Prod.snd = [path]) :
    hookOutPaths (some outputs) drvPath = outputs.map Prod.snd := by
  cases outputs with
  | nil => cases single
  | cons output rest => rfl

theorem forall₂_command (built : buildCachePushHook load cache = some hook) (listed : List String) :
    List.Forall₂ (fun arg expanded => expandVars env arg = .ok expanded) hook.command
      (cache.cacheType.fixedWords ++ cache.destination :: listed) ↔
    expandVars env cache.destination = .ok cache.destination ∧
      ∃ value, expandVars env "$OUT_PATHS" = .ok value ∧ listed = [value] := by
  rw [buildCachePushHook_command built, forall₂_append_of_self (fixedWords_expand cache.cacheType), List.forall₂_cons,
    List.forall₂_cons_left_iff]
  simp only [List.forall₂_nil_left_iff]
  refine and_congr_right fun _ => exists_congr fun value => ?_
  constructor
  · rintro ⟨_, expanded, rfl, same⟩
    exact ⟨expanded, same⟩
  · rintro ⟨expanded, same⟩
    exact ⟨[], expanded, rfl, same⟩

theorem pushesEveryOutput_unfold (built : buildCachePushHook load cache = some hook) :
    PushesEveryOutput cache hook context drvPath outputs ↔
      ∃ listed, listed.Perm (outputs.map Prod.snd) ∧ (∀ entry ∈ hook.env, validateEnvKey entry.1 = .ok ()) ∧
        let env := collect (buildHookEnv context drvPath (hookOutPaths (some outputs) drvPath) hook)
        expandVars env cache.destination = .ok cache.destination ∧
          ∃ value, expandVars env "$OUT_PATHS" = .ok value ∧ listed = [value] := by
  have some : hook.command ≠ [] := by
    rw [buildCachePushHook_command built]
    exact List.append_ne_nil_of_right_ne_nil _ (List.cons_ne_nil _ _)
  unfold PushesEveryOutput
  simp only [runHookCommand_eq_ok some, buildHookEnv_keys, forall₂_command built]

theorem PushesEveryOutput.singlyExpanded (built : buildCachePushHook load cache = some hook)
    (pushes : PushesEveryOutput cache hook context drvPath outputs) :
    SinglyExpanded cache hook context drvPath outputs := by
  obtain ⟨_, same, keys, destination, value, expanded, rfl⟩ := (pushesEveryOutput_unfold built).mp pushes
  have single : outputs.map Prod.snd = [value] := List.perm_singleton.mp same.symm
  rw [hookOutPaths_eq single, single] at destination expanded
  rw [expandVars_outPaths, buildHookEnv_outPaths] at expanded
  dsimp only at expanded
  split at expanded
  next => cases expanded
  next short =>
    have kept := Except.ok.inj expanded
    rw [kept] at short
    exact ⟨keys, by rwa [single], value, single, kept, Nat.not_lt.mp short⟩

theorem SinglyExpanded.pushesEveryOutput (built : buildCachePushHook load cache = some hook)
    (single : SinglyExpanded cache hook context drvPath outputs) :
    PushesEveryOutput cache hook context drvPath outputs := by
  obtain ⟨keys, destination, path, one, kept, short⟩ := single
  refine (pushesEveryOutput_unfold built).mpr ⟨[path], by rw [one], keys, ?_, path, ?_, rfl⟩
  · rwa [hookOutPaths_eq one]
  · rw [hookOutPaths_eq one, one, expandVars_outPaths, buildHookEnv_outPaths]
    dsimp only
    rw [show " ".intercalate [path] = path from rfl, kept, if_neg (Nat.not_lt.mpr short)]

/-- A hook pushes every output exactly if there is one. -/
theorem pushesEveryOutput_iff {load : Source → Option (List (String × String))}
    (built : buildCachePushHook load cache = some hook) (context : HookContext) (drvPath : String)
    (outputs : List (String × String)) :
    PushesEveryOutput cache hook context drvPath outputs ↔ SinglyExpanded cache hook context drvPath outputs :=
  ⟨fun pushes => pushes.singlyExpanded built, fun single => single.pushesEveryOutput built⟩

end Push

def ekalaCache : CacheConfig Unit := ⟨"ekala", .nixCopy, "https://cache.ekala.org", (), ⟨true, [], []⟩⟩

def ekalaHook : PostBuildHook :=
  ⟨"push-ekala", ["nix", "copy", "--to", "https://cache.ekala.org", "$OUT_PATHS"], []⟩

def helloContext : HookContext := ⟨"hello", false, "x86_64-linux", none, "logs/hello/build.log", "c0ffee"⟩

theorem oneOutput_pushesEveryOutput :
    PushesEveryOutput ekalaCache ekalaHook helloContext "/nix/store/a-hello.drv" [("out", "/nix/store/b-hello")] := by
  have built : buildCachePushHook (fun _ => some []) ekalaCache = some ekalaHook := by decide
  refine (pushesEveryOutput_iff built _ _ _).mpr ⟨nofun, ?_, "/nix/store/b-hello", rfl, rfl, by decide⟩
  rw [expandVars_plain (by decide), if_neg (by decide)]

/-- Both paths are in one argument. -/
theorem twoOutputs_not_pushesEveryOutput :
    ¬ PushesEveryOutput ekalaCache ekalaHook helloContext "/nix/store/a-hello.drv"
      [("out", "/nix/store/b-hello"), ("dev", "/nix/store/c-hello-dev")] := by
  intro pushes
  have built : buildCachePushHook (fun _ => some []) ekalaCache = some ekalaHook := by decide
  obtain ⟨path, single, -⟩ := (pushes.singlyExpanded built).output
  exact absurd (congrArg List.length single) (by simp)

end EkaCI
