import EkaCI.Jobs.HookCommands
import EkaCI.Lib.ByteSlices

/-! The expansion of an argument as the code runs over it, byte by byte, and what an argument is
made of: texts without a `$`, doubled ones, and the names of variables with and without braces. -/

namespace EkaCI

open Lib

/-- What is unexpected is a byte. -/
inductive ScanError where
  | exceeded
  | dangling
  | unterminated
  | invalidName (error : EnvKeyError)
  | unknown (name : String)
  | unexpected (byte : UInt8)
  | tooMany

/-- The place in the input in bytes, the output and the number of substitutions. -/
structure Scan where
  i : Nat
  out : List Char
  subs : Nat

namespace Scan

def dollar : UInt8 := 36

def openBrace : UInt8 := 123

def closeBrace : UInt8 := 125

def isKeyStart (b : UInt8) : Bool := isAsciiAlphabetic b || b = 95

def isKeyByte (b : UInt8) : Bool := isAsciiAlphanumeric b || b = 95

variable (env : String → Option String) (input : List Char)

/-- The name is looked up and its value is put out. -/
def substitute (scan : Scan) (name : List Char) (i : Nat) : Except ScanError Scan :=
  match env (String.ofList name) with
  | none => .error (.unknown (String.ofList name))
  | some value => .ok ⟨i, scan.out ++ value.toList, scan.subs + 1⟩

/-- What follows a `$`; `none` is a slice inside a character. -/
def token (scan : Scan) : Option (Except ScanError Scan) :=
  match (utf8Bytes input)[scan.i + 1]? with
  | none => some (.error .dangling)
  | some next =>
    if next = dollar then some (.ok ⟨scan.i + 2, scan.out ++ ['$'], scan.subs⟩)
    else if next = openBrace then
      let nameStart := scan.i + 2
      match position closeBrace ((utf8Bytes input).drop nameStart) with
      | none => some (.error .unterminated)
      | some closeRel =>
        let nameEnd := nameStart + closeRel
        (slice nameStart nameEnd input).map fun name =>
          match validateEnvKey (String.ofList name) with
          | .error error => .error (.invalidName error)
          | .ok () => scan.substitute env name (nameEnd + 1)
    else if isKeyStart next then
      let nameStart := scan.i + 1
      let j := nameStart + (((utf8Bytes input).drop nameStart).takeWhile isKeyByte).length
      (slice nameStart j input).map fun name => scan.substitute env name j
    else some (.error (.unexpected next))

def checkCaps (scan : Scan) : Except ScanError Scan :=
  if maxSubstitutionsPerArg < scan.subs then .error .tooMany
  else if maxExpandedArgLen < byteLen scan.out then .error .exceeded
  else .ok scan

/-- One round of the loop, at a byte. -/
def step (scan : Scan) (b : UInt8) : Option (Except ScanError Scan) :=
  if b ≠ dollar then
    let i := scan.i + (((utf8Bytes input).drop scan.i).takeWhile (· ≠ dollar)).length
    (slice scan.i i input).map fun run =>
      if maxExpandedArgLen < byteLen (scan.out ++ run) then .error .exceeded else .ok ⟨i, scan.out ++ run, scan.subs⟩
  else (scan.token env input).map fun read => read.bind checkCaps

variable {env input} {scan next : Scan} {b : UInt8}

theorem substitute_i {name : List Char} {i : Nat} (read : scan.substitute env name i = .ok next) : next.i = i := by
  rw [substitute] at read
  split at read
  · cases read
  · cases read
    rfl

theorem token_lt (read : scan.token env input = some (.ok next)) : scan.i < next.i := by
  rw [token] at read
  split at read
  · cases read
  · split at read
    · cases read
      exact Nat.lt_add_of_pos_right (by decide)
    · split at read
      · dsimp only at read
        split at read
        · cases read
        · obtain ⟨name, -, read⟩ := Option.map_eq_some_iff.mp read
          split at read
          · cases read
          · rw [substitute_i read]
            omega
      · split at read
        · obtain ⟨name, -, read⟩ := Option.map_eq_some_iff.mp read
          rw [substitute_i read]
          omega
        · cases read

theorem checkCaps_eq_ok (checked : scan.checkCaps = .ok next) : next = scan := by
  rw [checkCaps] at checked
  split at checked
  · cases checked
  · split at checked
    · cases checked
    · cases checked
      rfl

theorem step_lt (here : (utf8Bytes input)[scan.i]? = some b) (read : scan.step env input b = some (.ok next)) :
    scan.i < next.i := by
  rw [step] at read
  split at read
  next other =>
    obtain ⟨run, -, read⟩ := Option.map_eq_some_iff.mp read
    split at read
    · cases read
    · cases read
      have first : ((utf8Bytes input).drop scan.i).head? = some b := by rw [List.head?_drop, here]
      obtain ⟨rest, bytes⟩ := List.head?_eq_some_iff.mp first
      have passes : decide (b ≠ dollar) = true := decide_eq_true other
      rw [bytes, List.takeWhile_cons, if_pos passes, List.length_cons]
      exact Nat.lt_add_of_pos_right (Nat.succ_pos _)
  next =>
    obtain ⟨outcome, token, bound⟩ := Option.map_eq_some_iff.mp read
    cases outcome with
    | error error => cases bound
    | ok moved =>
      rw [checkCaps_eq_ok bound]
      exact token_lt token

variable (env input) in
/-- The loop. -/
def run (scan : Scan) : Option (Except ScanError (List Char)) :=
  match _here : (utf8Bytes input)[scan.i]? with
  | none => some (.ok scan.out)
  | some b =>
    match _read : scan.step env input b with
    | none => none
    | some (.error error) => some (.error error)
    | some (.ok next) => next.run
termination_by (utf8Bytes input).length - scan.i
decreasing_by
  have := step_lt _here _read
  have := (List.getElem?_eq_some_iff.mp _here).1
  omega

end Scan

/-- The expansion of an argument; `none` is a slice inside a character. -/
def scanVars (env : String → Option String) (input : String) : Option (Except ScanError String) :=
  (Scan.run env input.toList ⟨0, [], 0⟩).map fun outcome => outcome.map String.ofList

def ExpandError.scanned : ExpandError → ScanError
  | .exceeded => .exceeded
  | .dangling => .dangling
  | .unterminated => .unterminated
  | .invalidName error => .invalidName error
  | .unknown name => .unknown name
  | .unexpected letter => .unexpected ((String.utf8EncodeChar letter).headD 0)
  | .tooMany => .tooMany

theorem narrow_of_isAlphanum {c : Char} (letter : c.isAlphanum = true) : c.val.toNat < 128 := by
  have ends : 'z'.val.toNat < 128 ∧ 'Z'.val.toNat < 128 ∧ '9'.val.toNat < 128 := by decide
  unfold Char.isAlphanum Char.isAlpha Char.isUpper Char.isLower Char.isDigit at letter
  simp only [Bool.or_eq_true, Bool.and_eq_true, decide_eq_true_eq] at letter
  obtain (⟨-, below⟩ | ⟨-, below⟩) | ⟨-, below⟩ := letter
  · exact Nat.lt_of_le_of_lt (UInt32.le_iff_toNat_le.mp below) ends.2.1
  · exact Nat.lt_of_le_of_lt (UInt32.le_iff_toNat_le.mp below) ends.1
  · exact Nat.lt_of_le_of_lt (UInt32.le_iff_toNat_le.mp below) ends.2.2

theorem narrow_of_isKeyLetter {c : Char} (letter : isKeyLetter c = true) : c.val.toNat < 128 := by
  rcases Bool.or_eq_true_iff.mp letter with alphanumeric | underscore
  · exact narrow_of_isAlphanum alphanumeric
  · rw [of_decide_eq_true underscore]
    decide

theorem isKeyLetter_of_start {c : Char} (starts : (c.isAlpha || decide (c = '_')) = true) : isKeyLetter c = true := by
  rw [isKeyLetter, Char.isAlphanum, Bool.or_assoc, Bool.or_left_comm, starts, Bool.or_true]

theorem readToken_letter {env : String → Option String} {rest : List Char} {letter : Char} (notDollar : letter ≠ '$') (notBrace : letter ≠ '{') :
    readToken env (letter :: rest) =
      if letter.isAlpha || letter = '_' then
        match env (String.ofList (letter :: rest.takeWhile isKeyLetter)) with
        | none => .error (.unknown (String.ofList (letter :: rest.takeWhile isKeyLetter)))
        | some value => .ok (value.toList, true, rest.dropWhile isKeyLetter)
      else .error (.unexpected letter) := by
  unfold readToken
  split
  next ended => cases ended
  next same =>
    cases same
    exact absurd rfl notDollar
  next same =>
    cases same
    exact absurd rfl notBrace
  next same =>
    cases same
    rfl

namespace Scan

theorem narrow_of_isKeyByte {b : UInt8} (letter : isKeyByte b = true) : b.toNat < 128 := by
  rcases Bool.or_eq_true_iff.mp letter with alphanumeric | underscore
  · exact narrow_of_isAsciiAlphanumeric alphanumeric
  · rw [of_decide_eq_true underscore]
    decide

theorem isKeyByte_of_isKeyStart {b : UInt8} (starts : isKeyStart b = true) : isKeyByte b = true := by
  rw [isKeyStart] at starts
  rw [isKeyByte, isAsciiAlphanumeric, Bool.or_assoc, Bool.or_left_comm, starts, Bool.or_true]

theorem sameTest_dollar : SameTest (fun b => decide (b ≠ dollar)) (fun c => decide (c ≠ '$')) :=
  sameTest_ne (by decide) (by decide)

theorem sameTest_openBrace : SameTest (fun b => decide (b ≠ openBrace)) (fun c => decide (c ≠ '{')) :=
  sameTest_ne (by decide) (by decide)

theorem sameTest_closeBrace : SameTest (fun b => decide (b ≠ closeBrace)) (fun c => decide (c ≠ '}')) :=
  sameTest_ne (by decide) (by decide)

theorem sameTest_keyByte : SameTest isKeyByte isKeyLetter :=
  sameTest_of_narrow (fun _ => narrow_of_isKeyByte) (fun _ => narrow_of_isKeyLetter) (by decide)

theorem sameTest_keyStart : SameTest isKeyStart fun c => c.isAlpha || decide (c = '_') :=
  sameTest_of_narrow (fun _ starts => narrow_of_isKeyByte (isKeyByte_of_isKeyStart starts))
    (fun _ starts => narrow_of_isKeyLetter (isKeyLetter_of_start starts)) (by decide)

theorem position_closeBrace (text : List Char) :
    position closeBrace (utf8Bytes text) = if '}' ∈ text then some (byteLen (text.takeWhile (· ≠ '}'))) else none := by
  have member : closeBrace ∈ utf8Bytes text ↔ '}' ∈ text := by
    have all := @all_utf8Bytes text _ _ sameTest_closeBrace
    rw [Bool.eq_iff_iff, List.all_eq_true, List.all_eq_true] at all
    simp only [decide_eq_true_eq] at all
    constructor
    · intro inside
      by_contra none
      exact all.mpr (fun c member same => none (same ▸ member)) _ inside rfl
    · intro inside
      by_contra none
      exact all.mp (fun b member same => none (same ▸ member)) _ inside rfl
  rw [position, takeWhile_utf8Bytes sameTest_closeBrace, length_utf8Bytes]
  exact if_congr member rfl rfl

variable {env : String → Option String} {front rest : List Char} {out : List Char} {subs : Nat}

/-- The bytes at `$` are read as the characters behind it are: they fail alike, or take the same characters. -/
def TokenAgrees (env : String → Option String) (front rest out : List Char) (subs : Nat) : Prop :=
  match readToken env rest with
  | .error error => (Scan.mk (byteLen front) out subs).token env (front ++ '$' :: rest) = some (.error error.scanned)
  | .ok (value, substituted, after) => ∃ consumed, rest = consumed ++ after ∧
      (Scan.mk (byteLen front) out subs).token env (front ++ '$' :: rest) = some (.ok
        ⟨byteLen (front ++ '$' :: consumed), out ++ value, if substituted then subs + 1 else subs⟩)

theorem byteLen_dollar (front : List Char) : byteLen (front ++ ['$']) = byteLen front + 1 := by
  rw [byteLen_append]
  rfl

theorem dollar_cons (front rest : List Char) : front ++ '$' :: rest = (front ++ ['$']) ++ rest := by simp

theorem getElem?_behind (front rest : List Char) :
    (utf8Bytes (front ++ '$' :: rest))[byteLen front + 1]? = (utf8Bytes rest).head? := by
  rw [dollar_cons, ← byteLen_dollar, getElem?_utf8Bytes]

theorem exists_firstByte (letter : Char) (rest : List Char) : ∃ first ∈ String.utf8EncodeChar letter,
    (utf8Bytes (letter :: rest)).head? = some first ∧ (String.utf8EncodeChar letter).headD 0 = first := by
  obtain ⟨first, others, bytes⟩ := List.exists_cons_of_ne_nil (@String.utf8EncodeChar_ne_nil letter)
  rw [utf8Bytes_cons, bytes]
  exact ⟨first, List.mem_cons_self, rfl, rfl⟩

theorem eq_dollar_iff {first : UInt8} {letter : Char} (listed : first ∈ String.utf8EncodeChar letter) :
    first = dollar ↔ letter = '$' := by
  have same := sameTest_dollar letter first listed
  rwa [decide_eq_decide, not_iff_not] at same

theorem eq_openBrace_iff {first : UInt8} {letter : Char} (listed : first ∈ String.utf8EncodeChar letter) :
    first = openBrace ↔ letter = '{' := by
  have same := sameTest_openBrace letter first listed
  rwa [decide_eq_decide, not_iff_not] at same

theorem tokenAgrees_nil : TokenAgrees env front [] out subs := by
  rw [TokenAgrees, readToken, token, getElem?_behind]
  rfl

theorem tokenAgrees_dollar : TokenAgrees env front ('$' :: rest) out subs := by
  rw [TokenAgrees, readToken, token, getElem?_behind]
  refine ⟨['$'], rfl, ?_⟩
  rw [byteLen_append]
  rfl

theorem tokenAgrees_brace : TokenAgrees env front ('{' :: rest) out subs := by
  have before : byteLen (front ++ ['$', '{']) = byteLen front + 2 := by
    rw [byteLen_append]
    rfl
  have split : front ++ '$' :: '{' :: rest = (front ++ ['$', '{']) ++ rest := by simp
  have head : (utf8Bytes ('{' :: rest)).head? = some openBrace := rfl
  rw [TokenAgrees, token, getElem?_behind, head]
  dsimp only
  rw [if_neg (by decide), if_pos rfl, split, ← before, drop_utf8Bytes, position_closeBrace, readToken]
  by_cases closed : '}' ∈ rest
  · obtain ⟨name, after, rfl, outside⟩ := List.eq_append_cons_of_mem closed
    have free : ∀ c ∈ name, decide (c ≠ '}') = true := fun c member =>
      decide_eq_true fun same => outside (by rwa [← same])
    have taken : (name ++ '}' :: after).takeWhile (· ≠ '}') = name := by
      rw [List.takeWhile_append_of_pos free]
      simp
    have dropped : (name ++ '}' :: after).dropWhile (· ≠ '}') = '}' :: after := by
      rw [List.dropWhile_append_of_pos free]
      simp
    rw [if_pos closed, dropped, taken]
    dsimp only
    have cut := slice_append (front ++ ['$', '{']) name ('}' :: after)
    rw [List.append_assoc] at cut
    rw [cut, Option.map_some]
    cases validateEnvKey (String.ofList name) with
    | error error => rfl
    | ok =>
      dsimp only
      rw [substitute]
      cases env (String.ofList name) with
      | none => rfl
      | some value =>
        refine ⟨'{' :: name ++ ['}'], by simp, ?_⟩
        have wide : '}'.utf8Size = 1 := rfl
        simp [byteLen_append, Nat.add_assoc, wide]
  · have ended : rest.dropWhile (· ≠ '}') = [] :=
      List.dropWhile_eq_nil_iff.mpr fun c member => decide_eq_true fun same => closed (same ▸ member)
    rw [if_neg closed, ended]
    rfl

theorem tokenAgrees_letter {letter : Char} (notDollar : letter ≠ '$') (notBrace : letter ≠ '{') :
    TokenAgrees env front (letter :: rest) out subs := by
  obtain ⟨first, listed, head, unexpected⟩ := exists_firstByte letter rest
  rw [TokenAgrees, token, getElem?_behind, head]
  dsimp only
  rw [if_neg (mt (eq_dollar_iff listed).mp notDollar), if_neg (mt (eq_openBrace_iff listed).mp notBrace),
    sameTest_keyStart letter first listed, readToken_letter notDollar notBrace]
  by_cases starts : (letter.isAlpha || decide (letter = '_')) = true
  · rw [if_pos starts, if_pos starts]
    have taken : (letter :: rest).takeWhile isKeyLetter = letter :: rest.takeWhile isKeyLetter := by
      rw [List.takeWhile_cons, if_pos (isKeyLetter_of_start starts)]
    have split : front ++ '$' :: letter :: rest =
        (front ++ ['$']) ++ (letter :: rest.takeWhile isKeyLetter) ++ rest.dropWhile isKeyLetter := by
      rw [List.append_assoc, List.cons_append, List.takeWhile_append_dropWhile]
      exact dollar_cons front (letter :: rest)
    rw [dollar_cons, ← byteLen_dollar, drop_utf8Bytes, takeWhile_utf8Bytes sameTest_keyByte, length_utf8Bytes, taken,
      ← dollar_cons, split, slice_append, Option.map_some, substitute]
    cases env (String.ofList (letter :: rest.takeWhile isKeyLetter)) with
    | none => rfl
    | some value =>
      refine ⟨letter :: rest.takeWhile isKeyLetter, by rw [List.cons_append, List.takeWhile_append_dropWhile], ?_⟩
      rw [← byteLen_append, List.append_assoc]
      rfl
  · rw [if_neg starts, if_neg starts, ← unexpected]
    rfl

theorem token_eq (front rest out : List Char) (subs : Nat) : TokenAgrees env front rest out subs := by
  cases rest with
  | nil => exact tokenAgrees_nil
  | cons letter rest =>
    by_cases isDollar : letter = '$'
    · rw [isDollar]
      exact tokenAgrees_dollar
    · by_cases isBrace : letter = '{'
      · rw [isBrace]
        exact tokenAgrees_brace
      · exact tokenAgrees_letter isDollar isBrace

theorem step_dollar : (Scan.mk (byteLen front) out subs).step env input dollar =
    ((Scan.mk (byteLen front) out subs).token env input).map fun read => read.bind checkCaps := if_neg (not_not.mpr rfl)

theorem step_run {letter : Char} (other : letter ≠ '$') : ∃ b, (utf8Bytes (letter :: rest)).head? = some b ∧
    (Scan.mk (byteLen front) out subs).step env (front ++ letter :: rest) b =
      some (if maxExpandedArgLen < byteLen (out ++ letter :: rest.takeWhile (· ≠ '$')) then .error .exceeded
        else .ok ⟨byteLen (front ++ letter :: rest.takeWhile (· ≠ '$')), out ++ letter :: rest.takeWhile (· ≠ '$'), subs⟩) := by
  obtain ⟨first, listed, head, -⟩ := exists_firstByte letter rest
  have passes : first ≠ dollar := mt (eq_dollar_iff listed).mp other
  have letterPasses : decide (letter ≠ '$') = true := decide_eq_true other
  have taken : (letter :: rest).takeWhile (· ≠ '$') = letter :: rest.takeWhile (· ≠ '$') := by
    rw [List.takeWhile_cons, if_pos letterPasses]
  have split : front ++ letter :: rest =
      front ++ (letter :: rest.takeWhile (· ≠ '$')) ++ rest.dropWhile (· ≠ '$') := by
    rw [List.append_assoc, List.cons_append, List.takeWhile_append_dropWhile]
  refine ⟨first, head, ?_⟩
  rw [step, if_pos passes]
  dsimp only
  rw [drop_utf8Bytes, takeWhile_utf8Bytes sameTest_dollar, length_utf8Bytes, taken, split, slice_append, Option.map_some,
    byteLen_append front]

theorem run_end (ended : (utf8Bytes input)[scan.i]? = none) : run env input scan = some (.ok scan.out) := by
  rw [run]
  split
  next => rfl
  next here =>
    rw [ended] at here
    cases here

theorem run_step {b : UInt8} (here : (utf8Bytes input)[scan.i]? = some b) :
    run env input scan =
      match scan.step env input b with
      | none => none
      | some (.error error) => some (.error error)
      | some (.ok next) => run env input next := by
  rw [run]
  split
  next ended =>
    rw [here] at ended
    cases ended
  next found =>
    rw [here] at found
    cases found
    split
    next read => rw [read]
    next read => rw [read]
    next read => rw [read]

end Scan

section Characters

variable {env : String → Option String} {rest out value after : List Char} {subs : Nat} {substituted : Bool}

theorem expandFrom_error {error : ExpandError} (token : readToken env rest = .error error) :
    expandFrom env ('$' :: rest) out subs = .error error := by
  rw [expandFrom, if_pos rfl]
  split
  next found =>
    rw [token] at found
    cases found
    rfl
  next found =>
    rw [token] at found
    cases found

theorem utf8Len_eq_byteLen (text : List Char) : utf8Len text = byteLen text := by
  induction text with
  | nil => rfl
  | cons c rest ih => rw [byteLen_cons, ← ih, utf8Len, utf8Len, List.map_cons, List.sum_cons]

theorem expandFrom_token (token : readToken env rest = .ok (value, substituted, after)) :
    expandFrom env ('$' :: rest) out subs =
      if maxSubstitutionsPerArg < (if substituted then subs + 1 else subs) then .error .tooMany
      else if maxExpandedArgLen < byteLen (out ++ value) then .error .exceeded
      else expandFrom env after (out ++ value) (if substituted then subs + 1 else subs) := by
  rw [expandFrom, if_pos rfl]
  split
  next found =>
    rw [token] at found
    cases found
  next found =>
    rw [token] at found
    cases found
    rw [← utf8Len_eq_byteLen]

theorem expandFrom_run {letter : Char} (other : letter ≠ '$') :
    expandFrom env (letter :: rest) out subs =
      if maxExpandedArgLen < byteLen (out ++ letter :: rest.takeWhile (· ≠ '$')) then .error .exceeded
      else expandFrom env (rest.dropWhile (· ≠ '$')) (out ++ letter :: rest.takeWhile (· ≠ '$')) subs := by
  rw [expandFrom, if_neg other, ← utf8Len_eq_byteLen]

theorem Scan.run_eq (rest out : List Char) (subs : Nat) (front : List Char) :
    run env (front ++ rest) ⟨byteLen front, out, subs⟩ =
      some ((expandFrom env rest out subs).mapError ExpandError.scanned) := by
  induction length : rest.length using Nat.strong_induction_on generalizing rest out subs front with
  | _ count ih =>
    cases rest with
    | nil =>
      rw [run_end (by rw [getElem?_utf8Bytes]; rfl), expandFrom]
      rfl
    | cons letter rest =>
      by_cases isDollar : letter = '$'
      · subst isDollar
        have here : (utf8Bytes (front ++ '$' :: rest))[byteLen front]? = some dollar := by
          rw [getElem?_utf8Bytes]
          rfl
        have read := @token_eq env front rest out subs
        rw [TokenAgrees] at read
        rw [run_step here, step_dollar]
        cases token : readToken env rest with
        | error error =>
          rw [token] at read
          dsimp only at read
          rw [read, expandFrom_error token]
          rfl
        | ok found =>
          obtain ⟨value, substituted, after⟩ := found
          rw [token] at read
          obtain ⟨consumed, rfl, read⟩ := read
          rw [read, expandFrom_token token, Option.map_some]
          have shorter : after.length < count := by
            rw [← length, List.length_cons, List.length_append]
            omega
          have further := ih after.length shorter after (out ++ value) (if substituted then subs + 1 else subs)
            (front ++ '$' :: consumed) rfl
          rw [List.append_assoc, List.cons_append] at further
          simp only [Except.bind, checkCaps]
          by_cases many : maxSubstitutionsPerArg < if substituted then subs + 1 else subs
          · rw [if_pos many, if_pos many]
            rfl
          · rw [if_neg many, if_neg many]
            by_cases long : maxExpandedArgLen < byteLen (out ++ value)
            · rw [if_pos long, if_pos long]
              rfl
            · rw [if_neg long, if_neg long]
              exact further
      · obtain ⟨b, first, step⟩ := @step_run env front rest out subs letter isDollar
        have here : (utf8Bytes (front ++ letter :: rest))[byteLen front]? = some b := by rw [getElem?_utf8Bytes, first]
        rw [run_step here, step, expandFrom_run isDollar]
        by_cases long : maxExpandedArgLen < byteLen (out ++ letter :: rest.takeWhile (· ≠ '$'))
        · rw [if_pos long, if_pos long]
          rfl
        · rw [if_neg long, if_neg long]
          have shorter : (rest.dropWhile (· ≠ '$')).length < count := by
            rw [← length, List.length_cons]
            exact Nat.lt_succ_of_le (List.dropWhile_suffix _).length_le
          have further := ih _ shorter (rest.dropWhile (· ≠ '$')) (out ++ letter :: rest.takeWhile (· ≠ '$')) subs
            (front ++ letter :: rest.takeWhile (· ≠ '$')) rfl
          rw [List.append_assoc, List.cons_append, List.takeWhile_append_dropWhile] at further
          exact further

theorem scanVars_eq (env : String → Option String) (input : String) :
    scanVars env input = some ((expandVars env input).mapError ExpandError.scanned) := by
  have read := @Scan.run_eq env input.toList [] 0 []
  rw [List.nil_append, byteLen_nil] at read
  rw [scanVars, read, expandVars]
  cases expandFrom env input.toList [] 0 <;> rfl

theorem scanVars_eq_ok_iff {input result : String} :
    scanVars env input = some (.ok result) ↔ expandFrom env input.toList [] 0 = .ok result.toList := by
  rw [scanVars_eq, expandVars]
  cases expandFrom env input.toList [] 0 with
  | error error => simp [Except.map, Except.mapError]
  | ok out =>
    simp only [Except.map, Except.mapError, Option.some.injEq, Except.ok.injEq]
    rw [← String.toList_inj, String.toList_ofList]

end Characters

/-- A letter or `_`, and letters, digits and `_`. -/
def IsKeyName (letters : List Char) : Prop :=
  ∃ first rest, letters = first :: rest ∧ (first.isAlpha = true ∨ first = '_') ∧ ∀ c ∈ rest, isKeyLetter c = true

inductive Piece where
  | text (letters : List Char)
  | dollar
  | name (letters : List Char)
  | braced (letters : List Char)

namespace Piece

def source : Piece → List Char
  | text letters => letters
  | dollar => ['$', '$']
  | name letters => '$' :: letters
  | braced letters => '$' :: '{' :: letters ++ ['}']

/-- What a piece stands for. -/
def value (env : String → Option String) : Piece → Option (List Char)
  | text letters => some letters
  | dollar => some ['$']
  | name letters => (env (String.ofList letters)).map String.toList
  | braced letters => (env (String.ofList letters)).map String.toList

def substitutions : Piece → Nat
  | text _ => 0
  | dollar => 0
  | name _ => 1
  | braced _ => 1

/-- A piece before the rest of the text; a name without braces is as long as it can be. -/
def Fits (rest : List Char) : Piece → Prop
  | text letters => '$' ∉ letters
  | dollar => True
  | name letters => IsKeyName letters ∧ ∀ c, rest.head? = some c → isKeyLetter c = false
  | braced letters => IsKeyName letters

def sources (pieces : List Piece) : List Char := pieces.flatMap source

def Segmented : List Piece → Prop
  | [] => True
  | piece :: rest => piece.Fits (sources rest) ∧ Segmented rest

def values (env : String → Option String) (pieces : List Piece) : List Char :=
  pieces.flatMap fun piece => (piece.value env).getD []

def count (pieces : List Piece) : Nat := (pieces.map substitutions).sum

end Piece

/-- An argument taken apart: every name is bound, the values stand in the places of the pieces,
and on the way neither cap is exceeded. -/
structure Expansion (env : String → Option String) (input result : String) where
  pieces : List Piece
  segmented : Piece.Segmented pieces
  whole : Piece.sources pieces = input.toList
  bound : ∀ piece ∈ pieces, piece.value env ≠ none
  within : ∀ front, front <+: pieces →
    Piece.count front ≤ maxSubstitutionsPerArg ∧ byteLen (Piece.values env front) ≤ maxExpandedArgLen
  expanded : Piece.values env pieces = result.toList

/-- The expansion returns, and succeeds for exactly the arguments that can be taken apart. -/
structure ExpandsByGrammar (env : String → Option String) (input : String) : Prop where
  returns : scanVars env input ≠ none
  succeeds : ∀ result, scanVars env input = some (.ok result) ↔ Nonempty (Expansion env input result)

/-- The text with every `$` twice. -/
def doubled (text : String) : String := String.ofList (text.toList.flatMap fun c => if c = '$' then ['$', '$'] else [c])

section Grammar

open Piece

variable {env : String → Option String} {rest out value after : List Char} {subs : Nat} {substituted : Bool}

/-- The caps on the way, from an output and a number of substitutions on. -/
def CapsHold (env : String → Option String) (out : List Char) (subs : Nat) (pieces : List Piece) : Prop :=
  ∀ front, front <+: pieces →
    subs + count front ≤ maxSubstitutionsPerArg ∧ byteLen (out ++ values env front) ≤ maxExpandedArgLen

theorem capsHold_nil :
    CapsHold env out subs [] ↔ subs ≤ maxSubstitutionsPerArg ∧ byteLen out ≤ maxExpandedArgLen := by
  constructor
  · intro within
    have now := within [] List.nil_prefix
    rwa [values, List.flatMap_nil, List.append_nil] at now
  · intro now front empty
    rw [List.prefix_nil.mp empty, values, List.flatMap_nil, List.append_nil]
    exact now

theorem capsHold_cons {piece : Piece} {pieces : List Piece} (bound : piece.value env = some value) :
    CapsHold env out subs (piece :: pieces) ↔
      (subs ≤ maxSubstitutionsPerArg ∧ byteLen out ≤ maxExpandedArgLen) ∧
        CapsHold env (out ++ value) (subs + piece.substitutions) pieces := by
  have moved (front : List Piece) : count (piece :: front) = piece.substitutions + count front ∧
      values env (piece :: front) = value ++ values env front := by
    rw [count, List.map_cons, List.sum_cons, values, List.flatMap_cons, bound]
    exact ⟨rfl, rfl⟩
  constructor
  · intro within
    refine ⟨capsHold_nil.mp fun front empty => within front (empty.trans List.nil_prefix), fun front start => ?_⟩
    have later := within (piece :: front) (List.cons_prefix_cons.mpr ⟨rfl, start⟩)
    rwa [(moved front).1, (moved front).2, ← List.append_assoc, ← Nat.add_assoc] at later
  · rintro ⟨now, later⟩ front start
    rcases List.prefix_cons_iff.mp start with rfl | ⟨more, rfl, others⟩
    · exact capsHold_nil.mpr now [] List.nil_prefix
    · rw [(moved more).1, (moved more).2, ← List.append_assoc, ← Nat.add_assoc]
      exact later more others

theorem validateEnvKey_eq_ok_iff {letters : List Char} :
    validateEnvKey (String.ofList letters) = .ok () ↔ IsKeyName letters := by
  rw [validateEnvKey, String.toList_ofList]
  cases letters with
  | nil =>
    refine iff_of_false (by simp) ?_
    rintro ⟨first, others, split, -⟩
    cases split
  | cons first others =>
    have all : others.find? (!isKeyLetter ·) = none ↔ ∀ c ∈ others, isKeyLetter c = true := by
      rw [List.find?_eq_none]
      simp
    have named : IsKeyName (first :: others) ↔ (first.isAlpha || decide (first = '_')) = true ∧
        others.find? (!isKeyLetter ·) = none := by
      rw [all, Bool.or_eq_true, decide_eq_true_eq]
      constructor
      · rintro ⟨_, _, split, valid⟩
        cases split
        exact valid
      · intro valid
        exact ⟨first, others, rfl, valid⟩
    rw [named]
    dsimp only
    by_cases starts : (first.isAlpha || decide (first = '_')) = true
    · rw [if_pos starts, and_iff_right starts]
      cases others.find? (!isKeyLetter ·) <;> simp
    · rw [if_neg starts]
      exact iff_of_false (by simp) fun both => starts both.1

theorem exists_piece_of_readToken (token : readToken env rest = .ok (value, substituted, after)) :
    ∃ piece : Piece, piece.source ++ after = '$' :: rest ∧ piece.Fits after ∧ piece.value env = some value ∧
      piece.substitutions = if substituted then 1 else 0 := by
  cases rest with
  | nil => cases token
  | cons letter rest =>
    by_cases isDollar : letter = '$'
    · subst isDollar
      cases token
      exact ⟨.dollar, rfl, trivial, rfl, rfl⟩
    · by_cases isBrace : letter = '{'
      · subst isBrace
        rw [readToken] at token
        split at token
        next => cases token
        next closing remaining ended =>
          have closed : closing = '}' := by
            have first := List.head_dropWhile_not (p := fun c : Char => decide (c ≠ '}')) (l := rest) (by rw [ended]; simp)
            simp only [ended, List.head_cons, decide_eq_false_iff_not, not_not] at first
            exact first
          have split : rest = rest.takeWhile (· ≠ '}') ++ '}' :: remaining := by
            rw [closed] at ended
            rw [← ended, List.takeWhile_append_dropWhile]
          dsimp only at token
          split at token
          next => cases token
          next valid =>
            split at token
            next => cases token
            next bound found =>
              cases token
              refine ⟨.braced (rest.takeWhile (· ≠ '}')), ?_, validateEnvKey_eq_ok_iff.mp valid, ?_, rfl⟩
              · rw [Piece.source, List.append_assoc, List.cons_append, List.cons_append, List.singleton_append, ← split]
              · rw [Piece.value, found]
                rfl
      · rw [readToken_letter isDollar isBrace] at token
        split at token
        next starts =>
          split at token
          next => cases token
          next bound found =>
            cases token
            refine ⟨.name (letter :: rest.takeWhile isKeyLetter), ?_, ⟨⟨letter, _, rfl, ?_, ?_⟩, ?_⟩, ?_, rfl⟩
            · rw [Piece.source, List.cons_append, List.cons_append, List.takeWhile_append_dropWhile]
            · simpa using starts
            · exact fun c member => List.mem_takeWhile_imp member
            · intro c first
              exact List.head?_dropWhile_not isKeyLetter rest |> fun all => by simpa [first] using all
            · rw [Piece.value, found]
              rfl
        next => cases token

/-- Pieces of the rest, all bound, that keep to the caps and put out the result. -/
structure CutInto (env : String → Option String) (rest out : List Char) (subs : Nat) (result : List Char) (pieces : List Piece) :
    Prop where
  segmented : Segmented pieces
  whole : sources pieces = rest
  bound : ∀ piece ∈ pieces, piece.value env ≠ none
  caps : CapsHold env out subs pieces
  expanded : out ++ values env pieces = result

theorem CutInto.cons {piece : Piece} {pieces : List Piece} {result : List Char}
    (cut : CutInto env after (out ++ value) (subs + piece.substitutions) result pieces)
    (split : piece.source ++ after = rest) (fits : piece.Fits after) (bound : piece.value env = some value)
    (now : subs ≤ maxSubstitutionsPerArg ∧ byteLen out ≤ maxExpandedArgLen) :
    CutInto env rest out subs result (piece :: pieces) where
  segmented := ⟨by rwa [cut.whole], cut.segmented⟩
  whole := by
    rw [sources, List.flatMap_cons]
    exact (congrArg (piece.source ++ ·) cut.whole).trans split
  bound other member := by
    rcases List.mem_cons.mp member with rfl | later
    · rw [bound]
      exact Option.some_ne_none _
    · exact cut.bound other later
  caps := (capsHold_cons bound).mpr ⟨now, cut.caps⟩
  expanded := by
    rw [values, List.flatMap_cons, bound, Option.getD_some, ← List.append_assoc]
    exact cut.expanded

theorem exists_pieces_of_expandFrom {result : List Char} (done : expandFrom env rest out subs = .ok result)
    (now : subs ≤ maxSubstitutionsPerArg ∧ byteLen out ≤ maxExpandedArgLen) :
    ∃ pieces, CutInto env rest out subs result pieces := by
  induction length : rest.length using Nat.strong_induction_on generalizing rest out subs with
  | _ size ih =>
    cases rest with
    | nil =>
      rw [expandFrom] at done
      cases done
      exact ⟨[], trivial, rfl, List.forall_mem_nil _, capsHold_nil.mpr now, List.append_nil _⟩
    | cons letter rest =>
      by_cases isDollar : letter = '$'
      · subst isDollar
        cases token : readToken env rest with
        | error error =>
          rw [expandFrom_error token] at done
          cases done
        | ok found =>
          obtain ⟨value, substituted, after⟩ := found
          obtain ⟨piece, split, fits, bound, counted⟩ := exists_piece_of_readToken token
          have more : (if substituted then subs + 1 else subs) = subs + piece.substitutions := by
            rw [counted]
            cases substituted <;> rfl
          have shorter : after.length < size := by
            rw [← length, List.length_cons]
            exact (readToken_length env token).trans (Nat.lt_succ_self _)
          rw [expandFrom_token token, more] at done
          by_cases many : maxSubstitutionsPerArg < subs + piece.substitutions
          · rw [if_pos many] at done
            cases done
          · rw [if_neg many] at done
            by_cases long : maxExpandedArgLen < byteLen (out ++ value)
            · rw [if_pos long] at done
              cases done
            · rw [if_neg long] at done
              obtain ⟨pieces, cut⟩ := ih after.length shorter done ⟨Nat.not_lt.mp many, Nat.not_lt.mp long⟩ rfl
              exact ⟨piece :: pieces, cut.cons split fits bound now⟩
      · rw [expandFrom_run isDollar] at done
        split at done
        next => cases done
        next short =>
          have plain : '$' ∉ letter :: rest.takeWhile (· ≠ '$') := by
            rw [List.mem_cons, not_or]
            refine ⟨Ne.symm isDollar, fun member => ?_⟩
            have other := List.mem_takeWhile_imp member
            exact of_decide_eq_true other rfl
          have shorter : (rest.dropWhile (· ≠ '$')).length < size := by
            rw [← length, List.length_cons]
            exact Nat.lt_succ_of_le (List.dropWhile_suffix _).length_le
          have split : (Piece.text (letter :: rest.takeWhile (· ≠ '$'))).source ++ rest.dropWhile (· ≠ '$') = letter :: rest := by
            rw [Piece.source, List.cons_append, List.takeWhile_append_dropWhile]
          obtain ⟨pieces, cut⟩ := ih _ shorter done ⟨now.1, Nat.not_lt.mp short⟩ rfl
          exact ⟨.text (letter :: rest.takeWhile (· ≠ '$')) :: pieces, cut.cons split plain rfl now⟩

theorem expandFrom_text {letters : List Char} (plain : '$' ∉ letters) (short : byteLen (out ++ letters) ≤ maxExpandedArgLen) :
    expandFrom env (letters ++ rest) out subs = expandFrom env rest (out ++ letters) subs := by
  cases letters with
  | nil => rw [List.nil_append, List.append_nil]
  | cons first others =>
    rw [List.mem_cons, not_or] at plain
    have free : ∀ c ∈ others, decide (c ≠ '$') = true := fun c member =>
      decide_eq_true fun same => plain.2 (same ▸ member)
    rw [List.cons_append, expandFrom_run (Ne.symm plain.1), List.takeWhile_append_of_pos free,
      List.dropWhile_append_of_pos free]
    have ends (ended : rest.takeWhile (· ≠ '$') = []) (whole : rest.dropWhile (· ≠ '$') = rest) :
        (if maxExpandedArgLen < byteLen (out ++ first :: (others ++ rest.takeWhile (· ≠ '$'))) then .error .exceeded
          else expandFrom env (rest.dropWhile (· ≠ '$')) (out ++ first :: (others ++ rest.takeWhile (· ≠ '$'))) subs) =
        expandFrom env rest (out ++ first :: others) subs := by
      rw [ended, whole, List.append_nil, if_neg (Nat.not_lt.mpr short)]
    cases rest with
    | nil => exact ends rfl rfl
    | cons c more =>
      by_cases isDollar : c = '$'
      · subst isDollar
        exact ends rfl rfl
      · have passes : decide (c ≠ '$') = true := decide_eq_true isDollar
        rw [expandFrom_run isDollar, List.takeWhile_cons, if_pos passes, List.dropWhile_cons, if_pos passes,
          List.append_assoc, List.cons_append]

theorem readToken_piece {piece : Piece} (fits : piece.Fits after) (bound : piece.value env = some value)
    (noText : ∀ letters, piece ≠ .text letters) : ∃ front, piece.source ++ after = '$' :: front ∧
      readToken env front = .ok (value, decide (piece.substitutions = 1), after) := by
  cases piece with
  | text letters => exact absurd rfl (noText letters)
  | dollar =>
    cases bound
    exact ⟨'$' :: after, rfl, rfl⟩
  | name letters =>
    obtain ⟨⟨first, others, rfl, starts, named⟩, longest⟩ := fits
    obtain ⟨text, found, rfl⟩ := Option.map_eq_some_iff.mp bound
    have notDollar : first ≠ '$' := by
      rintro rfl
      exact absurd starts (by decide)
    have notBrace : first ≠ '{' := by
      rintro rfl
      exact absurd starts (by decide)
    have taken : (others ++ after).takeWhile isKeyLetter = others ∧ (others ++ after).dropWhile isKeyLetter = after := by
      rw [List.takeWhile_append_of_pos named, List.dropWhile_append_of_pos named]
      cases after with
      | nil => exact ⟨List.append_nil _, rfl⟩
      | cons c more =>
        have ends := longest c rfl
        rw [List.takeWhile_cons, List.dropWhile_cons, ends]
        exact ⟨List.append_nil _, rfl⟩
    refine ⟨first :: others ++ after, rfl, ?_⟩
    have starts : (first.isAlpha || decide (first = '_')) = true := by
      rw [Bool.or_eq_true, decide_eq_true_eq]
      exact starts
    rw [List.cons_append, readToken_letter notDollar notBrace, if_pos starts, taken.1, taken.2, found]
    rfl
  | braced letters =>
    obtain ⟨text, found, rfl⟩ := Option.map_eq_some_iff.mp bound
    have free : ∀ c ∈ letters, decide (c ≠ '}') = true := by
      obtain ⟨first, others, rfl, starts, named⟩ := fits
      intro c member
      refine decide_eq_true ?_
      rintro rfl
      rcases List.mem_cons.mp member with rfl | later
      · exact absurd starts (by decide)
      · exact absurd (named _ later) (by decide)
    have dropped : (letters ++ '}' :: after).dropWhile (· ≠ '}') = '}' :: after := by
      rw [List.dropWhile_append_of_pos free]
      simp
    have taken : (letters ++ '}' :: after).takeWhile (· ≠ '}') = letters := by
      rw [List.takeWhile_append_of_pos free]
      simp
    refine ⟨'{' :: (letters ++ '}' :: after), by simp [source], ?_⟩
    rw [readToken, dropped, taken]
    dsimp only
    rw [validateEnvKey_eq_ok_iff.mpr fits]
    dsimp only
    rw [found]
    rfl

theorem expandFrom_of_pieces {pieces : List Piece} (segmented : Segmented pieces)
    (bounds : ∀ piece ∈ pieces, piece.value env ≠ none) (within : CapsHold env out subs pieces) :
    expandFrom env (sources pieces) out subs = .ok (out ++ values env pieces) := by
  induction pieces generalizing out subs with
  | nil => rw [sources, List.flatMap_nil, expandFrom, values, List.flatMap_nil, List.append_nil]
  | cons piece pieces ih =>
    obtain ⟨fits, segmented⟩ := segmented
    obtain ⟨own, bounds⟩ := List.forall_mem_cons.mp bounds
    obtain ⟨value, bound⟩ := Option.ne_none_iff_exists'.mp own
    obtain ⟨-, within⟩ := (capsHold_cons bound).mp within
    have short := capsHold_nil.mp fun front empty => within front (empty.trans List.nil_prefix)
    have further := ih segmented bounds within
    have whole : sources (piece :: pieces) = piece.source ++ sources pieces := List.flatMap_cons
    have expanded : values env (piece :: pieces) = value ++ values env pieces := by
      rw [values, List.flatMap_cons, bound]
      rfl
    rw [whole, expanded, ← List.append_assoc, ← further]
    by_cases isText : ∃ letters, piece = .text letters
    · obtain ⟨letters, rfl⟩ := isText
      cases bound
      exact expandFrom_text fits short.2
    · obtain ⟨front, split, token⟩ := readToken_piece fits bound fun letters same => isText ⟨letters, same⟩
      have counted : (if decide (piece.substitutions = 1) = true then subs + 1 else subs) = subs + piece.substitutions := by
        cases piece <;> rfl
      rw [split, expandFrom_token token, counted, if_neg (Nat.not_lt.mpr short.1), if_neg (Nat.not_lt.mpr short.2)]

theorem expandsByGrammar (env : String → Option String) (input : String) : ExpandsByGrammar env input where
  returns := by
    rw [scanVars_eq]
    exact Option.some_ne_none _
  succeeds result := by
    rw [scanVars_eq_ok_iff]
    have none : 0 ≤ maxSubstitutionsPerArg ∧ byteLen [] ≤ maxExpandedArgLen := ⟨Nat.zero_le _, Nat.zero_le _⟩
    constructor
    · intro done
      obtain ⟨pieces, ⟨segmented, whole, bound, within, expanded⟩⟩ := exists_pieces_of_expandFrom done none
      refine ⟨pieces, segmented, whole, bound, fun front start => ?_, expanded⟩
      have caps := within front start
      rwa [Nat.zero_add] at caps
    · rintro ⟨pieces, segmented, whole, bound, within, expanded⟩
      have caps : CapsHold env [] 0 pieces := by
        intro front start
        rw [Nat.zero_add]
        exact within front start
      have done := expandFrom_of_pieces segmented bound caps
      rwa [whole, List.nil_append, expanded] at done

/-- Letter by letter, a doubled `$` being one. -/
def letterPiece (c : Char) : Piece := if c = '$' then .dollar else .text [c]

theorem letterPiece_value (c : Char) : (letterPiece c).value env = some [c] := by
  unfold letterPiece
  split
  next same =>
    rw [same]
    rfl
  next => rfl

variable (text : List Char)

theorem letterPieces_values : values env (text.map letterPiece) = text := by
  induction text with
  | nil => rfl
  | cons c rest ih =>
    rw [values] at ih ⊢
    rw [List.map_cons, List.flatMap_cons, letterPiece_value, ih]
    rfl

theorem letterPieces_segmented : Segmented (text.map letterPiece) := by
  induction text with
  | nil => trivial
  | cons c rest ih =>
    refine ⟨?_, ih⟩
    unfold letterPiece
    split
    next => trivial
    next other => exact fun member => other (List.mem_singleton.mp member).symm

theorem letterPieces_sources :
    sources (text.map letterPiece) = text.flatMap fun c => if c = '$' then ['$', '$'] else [c] := by
  rw [sources, List.flatMap_map]
  congr 1
  funext c
  unfold letterPiece
  split <;> rfl

theorem letterPieces_count : count (text.map letterPiece) = 0 := by
  induction text with
  | nil => rfl
  | cons c rest ih =>
    have none : (letterPiece c).substitutions = 0 := by
      unfold letterPiece
      split <;> rfl
    rw [count] at ih ⊢
    rw [List.map_cons, List.map_cons, List.sum_cons, none, ih]

theorem scanVars_doubled (env : String → Option String) (text : String) :
    scanVars env (doubled text) = some (.ok text) ↔ byteLen text.toList ≤ maxExpandedArgLen := by
  rw [(expandsByGrammar env (doubled text)).succeeds]
  constructor
  · rintro ⟨pieces, -, -, -, within, expanded⟩
    rw [← expanded]
    exact (within pieces List.prefix_rfl).2
  · intro short
    refine ⟨text.toList.map letterPiece, letterPieces_segmented _, ?_, ?_, ?_, letterPieces_values _⟩
    · rw [letterPieces_sources, doubled, String.toList_ofList]
    · intro piece member
      obtain ⟨c, -, rfl⟩ := List.mem_map.mp member
      rw [letterPiece_value]
      exact Option.some_ne_none _
    · rintro front ⟨more, split⟩
      obtain ⟨first, second, both, rfl, -⟩ := List.append_eq_map_iff.mp split
      rw [letterPieces_count, letterPieces_values]
      refine ⟨Nat.zero_le _, le_trans ?_ short⟩
      rw [both, byteLen_append]
      exact Nat.le_add_right _ _

end Grammar

/-- The expansion is that of the grammar, and a doubled text is given back, if it is no longer than the cap. -/
theorem expandVars_exact (env : String → Option String) (input : String) : ExpandsByGrammar env input ∧
    (scanVars env (doubled input) = some (.ok input) ↔ byteLen input.toList ≤ maxExpandedArgLen) :=
  ⟨expandsByGrammar env input, scanVars_doubled env input⟩

/-- A text of a byte more than the cap. -/
theorem not_expandVars_long : ¬ ∀ (env : String → Option String) (input : String),
    ExpandsByGrammar env input ∧ scanVars env (doubled input) = some (.ok input) := by
  intro always
  have short := (scanVars_doubled (fun _ => none) _).mp
    (always (fun _ => none) (String.ofList (List.replicate (maxExpandedArgLen + 1) 'a'))).2
  have narrow : ∀ c ∈ List.replicate (maxExpandedArgLen + 1) 'a', c.utf8Size = 1 := by
    intro c member
    rw [List.eq_of_mem_replicate member]
    rfl
  rw [String.toList_ofList, byteLen_of_narrow narrow, List.length_replicate] at short
  exact Nat.not_succ_le_self _ short

end EkaCI
