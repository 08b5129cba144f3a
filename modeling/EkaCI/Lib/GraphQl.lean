import Mathlib.Data.List.Basic

/-! Documents of the GraphQL language: the characters of a text to tokens, and these to the
fields of one operation. Numbers, block strings, escapes by number, variables, directives and
fragments are left out; a text that has one is not read. -/

namespace EkaCI.Lib.GraphQl

/-- The editions differ in the characters that a text can have at all. -/
inductive Edition where
  | october2021
  | september2025

def isSourceCharacter : Edition → Char → Bool
  | .october2021, c => c = '\t' || c = '\n' || c = '\r' || (0x20 ≤ c.toNat && c.toNat ≤ 0xFFFF)
  | .september2025, _ => true

def isLineTerminator (c : Char) : Bool := c = '\n' || c = '\r'

/-- White space, the ends of lines, the comma and the byte order mark. -/
def isIgnored (c : Char) : Bool := isLineTerminator c || c = ' ' || c = '\t' || c = ',' || c.toNat = 0xFEFF

def isNameStart (c : Char) : Bool := c = '_' || c.isAlpha

def isNameContinue (c : Char) : Bool := isNameStart c || c.isDigit

def isPunctuator (c : Char) : Bool := c ∈ ['!', '$', '&', '(', ')', ':', '=', '@', '[', ']', '{', '|', '}']

def escapedCharacter : Char → Option Char
  | '"' => some '"'
  | '\\' => some '\\'
  | '/' => some '/'
  | 'b' => some (Char.ofNat 8)
  | 'f' => some (Char.ofNat 12)
  | 'n' => some '\n'
  | 'r' => some '\r'
  | 't' => some '\t'
  | _ => none

inductive Token where
  | name (text : List Char)
  | text (content : List Char)
  | punctuator (c : Char)

/-- Where in a token the reader is; what was read of it has its last character first. -/
inductive LexMode where
  | between
  | name (read : List Char)
  | opened
  | empty
  | text (read : List Char)
  | escape (read : List Char)
  | comment

/-- The last token comes first. -/
structure LexState where
  mode : LexMode
  done : List Token

def stepBetween (done : List Token) (c : Char) : Option LexState :=
  if isIgnored c then some ⟨.between, done⟩
  else if c = '#' then some ⟨.comment, done⟩
  else if c = '"' then some ⟨.opened, done⟩
  else if isNameStart c then some ⟨.name [c], done⟩
  else if isPunctuator c then some ⟨.between, .punctuator c :: done⟩
  else none

def stepText (read : List Char) (done : List Token) (c : Char) : Option LexState :=
  if c = '"' then some ⟨.between, .text read.reverse :: done⟩
  else if c = '\\' then some ⟨.escape read, done⟩
  else if isLineTerminator c then none
  else some ⟨.text (c :: read), done⟩

def step (edition : Edition) (state : LexState) (c : Char) : Option LexState :=
  if !isSourceCharacter edition c then none
  else
    match state.mode with
    | .between => stepBetween state.done c
    | .name read =>
      if isNameContinue c then some ⟨.name (c :: read), state.done⟩ else stepBetween (.name read.reverse :: state.done) c
    | .opened => if c = '"' then some ⟨.empty, state.done⟩ else stepText [] state.done c
    -- A third quote begins a block string.
    | .empty => if c = '"' then none else stepBetween (.text [] :: state.done) c
    | .text read => stepText read state.done c
    | .escape read => (escapedCharacter c).map fun plain => ⟨.text (plain :: read), state.done⟩
    | .comment => some ⟨if isLineTerminator c then .between else .comment, state.done⟩

def run (edition : Edition) (state : LexState) (text : List Char) : Option LexState := text.foldlM (step edition) state

def LexState.finish (state : LexState) : Option (List Token) :=
  match state.mode with
  | .between | .comment => some state.done.reverse
  | .name read => some (.name read.reverse :: state.done).reverse
  | .empty => some (.text [] :: state.done).reverse
  | .opened | .text _ | .escape _ => none

def lex (edition : Edition) (text : List Char) : Option (List Token) :=
  (run edition ⟨.between, []⟩ text).bind LexState.finish

mutual

/-- A name is `true`, `false`, `null` or a value of an enumeration. -/
inductive Value where
  | text (content : List Char)
  | name (name : List Char)
  | object (fields : Fields)

inductive Fields where
  | nil
  | cons (name : List Char) (value : Value) (rest : Fields)

end

inductive Selections where
  | nil
  | field (label : Option (List Char)) (name : List Char) (arguments : Fields) (selected rest : Selections)

structure Operation where
  kind : List Char
  selections : Selections

def Fields.isNil : Fields → Bool
  | .nil => true
  | .cons .. => false

def Selections.isNil : Selections → Bool
  | .nil => true
  | .field .. => false

mutual

def parseValue : Nat → List Token → Option (Value × List Token)
  | _ + 1, .text content :: rest => some (.text content, rest)
  | _ + 1, .name name :: rest => some (.name name, rest)
  | fuel + 1, .punctuator '{' :: rest => (parseFields '}' fuel rest).map fun (fields, rest) => (.object fields, rest)
  | _, _ => none

/-- Up to the punctuator that closes. -/
def parseFields (close : Char) : Nat → List Token → Option (Fields × List Token)
  | _ + 1, .punctuator c :: rest => if c = close then some (.nil, rest) else none
  | fuel + 1, .name name :: .punctuator ':' :: rest =>
    (parseValue fuel rest).bind fun (value, rest) =>
      (parseFields close fuel rest).map fun (fields, rest) => (.cons name value fields, rest)
  | _, _ => none

end

def parseName : List Token → Option (Option (List Char) × List Char × List Token)
  | .name label :: .punctuator ':' :: .name name :: rest => some (some label, name, rest)
  | .name name :: rest => some (none, name, rest)
  | _ => none

/-- There are no parentheses without an argument. -/
def parseArguments (fuel : Nat) : List Token → Option (Fields × List Token)
  | .punctuator '(' :: rest => (parseFields ')' fuel rest).filter fun (fields, _) => !fields.isNil
  | rest => some (.nil, rest)

mutual

/-- There are no braces without a field. -/
def parseSelected : Nat → List Token → Option (Selections × List Token)
  | fuel + 1, .punctuator '{' :: rest => (parseSelections fuel rest).filter fun (selections, _) => !selections.isNil
  | 0, .punctuator '{' :: _ => none
  | _, rest => some (.nil, rest)

/-- Up to the brace that closes. -/
def parseSelections : Nat → List Token → Option (Selections × List Token)
  | _ + 1, .punctuator '}' :: rest => some (.nil, rest)
  | fuel + 1, tokens =>
    (parseName tokens).bind fun (label, name, rest) =>
      (parseArguments fuel rest).bind fun (arguments, rest) =>
        (parseSelected fuel rest).bind fun (selected, rest) =>
          (parseSelections fuel rest).map fun (more, rest) => (.field label name arguments selected more, rest)
  | 0, _ => none

end

def isOperation (kind : List Char) : Bool :=
  kind = "query".toList || kind = "mutation".toList || kind = "subscription".toList

/-- The one operation of a document. -/
def parseTokens : List Token → Option Operation
  | .name kind :: rest =>
    match parseSelected rest.length rest with
    | some (selections, []) => if isOperation kind && !selections.isNil then some ⟨kind, selections⟩ else none
    | _ => none
  | _ => none

def parse (edition : Edition) (text : List Char) : Option Operation := (lex edition text).bind parseTokens

mutual

def Value.tokens : Value → List Token
  | .text content => [.text content]
  | .name name => [.name name]
  | .object fields => .punctuator '{' :: (fields.tokens ++ [.punctuator '}'])

def Fields.tokens : Fields → List Token
  | .nil => []
  | .cons name value rest => .name name :: .punctuator ':' :: (value.tokens ++ rest.tokens)

end

def labelTokens (label : Option (List Char)) : List Token :=
  (label.map fun label => [Token.name label, .punctuator ':']).getD []

def argumentTokens (arguments : Fields) : List Token :=
  if arguments.isNil then [] else .punctuator '(' :: (arguments.tokens ++ [.punctuator ')'])

def Selections.tokens : Selections → List Token
  | .nil => []
  | .field label name arguments selected rest =>
    labelTokens label ++ .name name :: (argumentTokens arguments ++
      ((if selected.isNil then [] else .punctuator '{' :: (selected.tokens ++ [.punctuator '}'])) ++ rest.tokens))

def selectedTokens (selected : Selections) : List Token :=
  if selected.isNil then [] else .punctuator '{' :: (selected.tokens ++ [.punctuator '}'])

def Operation.tokens (operation : Operation) : List Token := .name operation.kind :: selectedTokens operation.selections

theorem Selections.tokens_field (label : Option (List Char)) (name : List Char) (arguments : Fields)
    (selected rest : Selections) :
    (field label name arguments selected rest).tokens =
      labelTokens label ++ .name name :: (argumentTokens arguments ++ (selectedTokens selected ++ rest.tokens)) := rfl

mutual

theorem parseValue_tokens (value : Value) (fuel : Nat) (rest : List Token) (enough : value.tokens.length ≤ fuel) :
    parseValue fuel (value.tokens ++ rest) = some (value, rest) := by
  match value, fuel with
  | .text _, fuel + 1 => rfl
  | .name _, fuel + 1 => rfl
  | .object fields, fuel + 1 =>
    have room : fields.tokens.length < fuel := by
      simp only [Value.tokens, List.length_cons, List.length_append, List.length_nil] at enough
      omega
    have inside := parseFields_tokens fields '}' fuel rest room
    simp only [Value.tokens, List.cons_append, List.append_assoc, List.nil_append, parseValue, inside, Option.map_some]
  | .text _, 0 | .name _, 0 | .object _, 0 => simp [Value.tokens] at enough

theorem parseFields_tokens (fields : Fields) (close : Char) (fuel : Nat) (rest : List Token)
    (enough : fields.tokens.length < fuel) :
    parseFields close fuel (fields.tokens ++ .punctuator close :: rest) = some (fields, rest) := by
  match fields, fuel with
  | .nil, fuel + 1 => simp [Fields.tokens, parseFields]
  | .cons name value more, fuel + 1 =>
    have room : value.tokens.length ≤ fuel ∧ more.tokens.length < fuel := by
      simp only [Fields.tokens, List.length_cons, List.length_append] at enough
      omega
    have first := parseValue_tokens value fuel (more.tokens ++ .punctuator close :: rest) room.1
    have others := parseFields_tokens more close fuel rest room.2
    simp only [Fields.tokens, List.cons_append, List.append_assoc, parseFields, first, Option.bind_some, others,
      Option.map_some]

end

/-- What comes does not begin with one of these punctuators. -/
def Begins (other : List Char) (tokens : List Token) : Prop := ∀ c ∈ other, tokens.head? ≠ some (.punctuator c)

theorem begins_tokens (selections : Selections) (rest : List Token) :
    Begins [':', '(', '{'] (selections.tokens ++ .punctuator '}' :: rest) := by
  intro c other
  cases selections with
  | nil =>
    simp only [Selections.tokens, List.nil_append, List.head?_cons]
    rintro ⟨⟩
    revert other
    decide
  | field label => cases label <;> simp [Selections.tokens_field, labelTokens]

theorem begins_selectedTokens (selected : Selections) {rest : List Token} (next : Begins [':', '(', '{'] rest) :
    Begins [':', '('] (selectedTokens selected ++ rest) := by
  intro c other
  cases selected with
  | nil => exact next c (List.mem_append_left ['{'] other)
  | field =>
    simp only [selectedTokens, Selections.isNil]
    rintro ⟨⟩
    revert other
    decide

theorem begins_argumentTokens (arguments : Fields) {rest : List Token} (next : Begins [':', '('] rest) :
    Begins [':'] (argumentTokens arguments ++ rest) := by
  intro c other
  cases arguments with
  | nil => exact next c (List.mem_append_left ['('] other)
  | cons =>
    simp only [argumentTokens, Fields.isNil]
    rintro ⟨⟩
    revert other
    decide

theorem parseName_tokens (label : Option (List Char)) (name : List Char) {rest : List Token} (next : Begins [':'] rest) :
    parseName (labelTokens label ++ .name name :: rest) = some (label, name, rest) := by
  cases label with
  | some label => rfl
  | none =>
    simp only [labelTokens, Option.map_none, Option.getD_none, List.nil_append]
    unfold parseName
    split
    · simp_all [Begins]
    · simp_all
    · simp_all

theorem parseArguments_tokens (arguments : Fields) (fuel : Nat) {rest : List Token}
    (enough : (argumentTokens arguments).length ≤ fuel) (next : Begins [':', '('] rest) :
    parseArguments fuel (argumentTokens arguments ++ rest) = some (arguments, rest) := by
  cases arguments with
  | nil =>
    simp only [argumentTokens, Fields.isNil, if_true, List.nil_append]
    unfold parseArguments
    split
    · simp_all [Begins]
    · rfl
  | cons name value more =>
    have room : (Fields.cons name value more).tokens.length < fuel := by
      simp [argumentTokens, Fields.isNil] at enough
      omega
    have inside := parseFields_tokens (.cons name value more) ')' fuel rest room
    have written : argumentTokens (.cons name value more) ++ rest =
        .punctuator '(' :: ((Fields.cons name value more).tokens ++ .punctuator ')' :: rest) := by
      simp [argumentTokens, Fields.isNil]
    rw [written, parseArguments, inside]
    rfl

theorem parseSelections_field (fuel : Nat) {tokens : List Token} (next : tokens.head? ≠ some (.punctuator '}')) :
    parseSelections (fuel + 1) tokens = (parseName tokens).bind fun (label, name, rest) =>
      (parseArguments fuel rest).bind fun (arguments, rest) =>
        (parseSelected fuel rest).bind fun (selected, rest) =>
          (parseSelections fuel rest).map fun (more, rest) => (.field label name arguments selected more, rest) := by
  rw [parseSelections]
  intro rest same
  exact next (by rw [same]; rfl)

mutual

theorem parseSelected_tokens (selected : Selections) (fuel : Nat) {rest : List Token}
    (enough : (selectedTokens selected).length ≤ fuel) (next : Begins [':', '(', '{'] rest) :
    parseSelected fuel (selectedTokens selected ++ rest) = some (selected, rest) := by
  match selected, fuel with
  | .nil, fuel =>
    simp only [selectedTokens, Selections.isNil, if_true, List.nil_append]
    unfold parseSelected
    split
    · simp_all [Begins]
    · simp_all [Begins]
    · rfl
  | .field label name arguments inner more, 0 => simp [selectedTokens, Selections.isNil] at enough
  | .field label name arguments inner more, fuel + 1 =>
    have room : (Selections.field label name arguments inner more).tokens.length < fuel := by
      simp [selectedTokens, Selections.isNil] at enough
      omega
    have inside := parseSelections_tokens (.field label name arguments inner more) fuel rest room
    have written : selectedTokens (.field label name arguments inner more) ++ rest =
        .punctuator '{' :: ((Selections.field label name arguments inner more).tokens ++ .punctuator '}' :: rest) := by
      simp [selectedTokens, Selections.isNil]
    rw [written, parseSelected, inside]
    rfl

theorem parseSelections_tokens (selections : Selections) (fuel : Nat) (rest : List Token)
    (enough : selections.tokens.length < fuel) :
    parseSelections fuel (selections.tokens ++ .punctuator '}' :: rest) = some (selections, rest) := by
  match selections, fuel with
  | .nil, fuel + 1 => rfl
  | .field label name arguments selected more, fuel + 1 =>
    rw [Selections.tokens_field] at enough ⊢
    have room : (argumentTokens arguments).length ≤ fuel ∧ (selectedTokens selected).length ≤ fuel ∧
        more.tokens.length < fuel := by
      simp only [List.length_append, List.length_cons] at enough
      omega
    have begins := begins_tokens more rest
    have others := parseSelections_tokens more fuel rest room.2.2
    have inside := parseSelected_tokens selected fuel room.2.1 begins
    have given := parseArguments_tokens arguments fuel room.1 (begins_selectedTokens selected begins)
    have named := parseName_tokens label name (begins_argumentTokens arguments (begins_selectedTokens selected begins))
    have first : (labelTokens label ++ .name name :: (argumentTokens arguments ++ (selectedTokens selected ++
        (more.tokens ++ .punctuator '}' :: rest)))).head? ≠ some (.punctuator '}') := by
      cases label <;> simp [labelTokens]
    simp only [List.append_assoc, List.cons_append]
    rw [parseSelections_field fuel first]
    simp only [named, given, inside, others, Option.bind_some, Option.map_some]

end

theorem parseTokens_tokens (operation : Operation) (known : isOperation operation.kind = true)
    (present : operation.selections.isNil = false) : parseTokens operation.tokens = some operation := by
  have last : Begins [':', '(', '{'] [] := fun c _ => by simp
  have read := parseSelected_tokens operation.selections (selectedTokens operation.selections).length Nat.le.refl last
  rw [List.append_nil] at read
  rw [Operation.tokens, parseTokens, read]
  simp [known, present]

variable {edition : Edition}

theorem run_append (state : LexState) (first second : List Char) :
    run edition state (first ++ second) = (run edition state first).bind fun state => run edition state second :=
  List.foldlM_append

theorem run_cons (state : LexState) (c : Char) (rest : List Char) :
    run edition state (c :: rest) = (step edition state c).bind fun state => run edition state rest := rfl

theorem toNat_of_isNameContinue {c : Char} (inside : isNameContinue c = true) : 48 ≤ c.toNat ∧ c.toNat ≤ 122 := by
  have ends : 'A'.val.toNat = 65 ∧ 'Z'.val.toNat = 90 ∧ 'a'.val.toNat = 97 ∧ 'z'.val.toNat = 122 ∧ '0'.val.toNat = 48 ∧
      '9'.val.toNat = 57 := by decide
  unfold isNameContinue isNameStart Char.isAlpha Char.isUpper Char.isLower Char.isDigit at inside
  simp only [Bool.or_eq_true, Bool.and_eq_true, decide_eq_true_eq, UInt32.le_iff_toNat_le, ge_iff_le] at inside
  obtain ((rfl | ⟨low, high⟩ | ⟨low, high⟩) | ⟨low, high⟩) := inside
  · decide
  all_goals
    simp only [Char.toNat]
    omega

theorem ne_of_isNameContinue {c other : Char} (inside : isNameContinue c = true) (no : isNameContinue other = false) :
    c ≠ other := by
  rintro rfl
  rw [inside] at no
  cases no

theorem isSourceCharacter_of_isNameContinue {c : Char} (inside : isNameContinue c = true) :
    isSourceCharacter edition c = true := by
  cases edition with
  | september2025 => rfl
  | october2021 =>
    obtain ⟨low, high⟩ := toNat_of_isNameContinue inside
    have printable : 0x20 ≤ c.toNat ∧ c.toNat ≤ 0xFFFF := ⟨by omega, by omega⟩
    simp [isSourceCharacter, printable]

theorem step_name_continue {c : Char} (inside : isNameContinue c = true) (read : List Char) (done : List Token) :
    step edition ⟨.name read, done⟩ c = some ⟨.name (c :: read), done⟩ := by
  simp [step, isSourceCharacter_of_isNameContinue inside, inside]

theorem run_name_continue {name : List Char} (inside : ∀ c ∈ name, isNameContinue c = true) (read : List Char)
    (done : List Token) : run edition ⟨.name read, done⟩ name = some ⟨.name (name.reverse ++ read), done⟩ := by
  induction name generalizing read with
  | nil => rfl
  | cons c rest ih =>
    obtain ⟨first, others⟩ := List.forall_mem_cons.mp inside
    rw [run_cons, step_name_continue first, Option.bind_some, ih others, List.reverse_cons, List.append_assoc,
      List.singleton_append]

/-- A name, and what it ends before. -/
theorem run_name {c : Char} {name : List Char} (start : isNameStart c = true)
    (inside : ∀ c ∈ name, isNameContinue c = true) {next : Char} (stops : isNameContinue next = false) (done : List Token)
    (rest : List Char) :
    run edition ⟨.between, done⟩ (c :: name ++ next :: rest) =
      run edition ⟨.between, .name (c :: name) :: done⟩ (next :: rest) := by
  have continues : isNameContinue c = true := by simp [isNameContinue, start]
  have ignored : isIgnored c = false := by
    have low := (toNat_of_isNameContinue continues).2
    simp only [isIgnored, isLineTerminator, ne_of_isNameContinue continues (by decide : isNameContinue '\n' = false),
      ne_of_isNameContinue continues (by decide : isNameContinue '\r' = false),
      ne_of_isNameContinue continues (by decide : isNameContinue ' ' = false),
      ne_of_isNameContinue continues (by decide : isNameContinue '\t' = false),
      ne_of_isNameContinue continues (by decide : isNameContinue ',' = false), decide_false, Bool.false_or,
      decide_eq_false_iff_not]
    omega
  have first : step edition ⟨.between, done⟩ c = some ⟨.name [c], done⟩ := by
    simp only [step, isSourceCharacter_of_isNameContinue continues, Bool.not_true, Bool.false_eq_true, if_false,
      stepBetween, ignored, ne_of_isNameContinue continues (by decide : isNameContinue '#' = false),
      ne_of_isNameContinue continues (by decide : isNameContinue '"' = false), start, if_true]
  have last : step edition ⟨.name (name.reverse ++ [c]), done⟩ next =
      step edition ⟨.between, .name (c :: name) :: done⟩ next := by
    simp [step, stops]
  rw [List.cons_append, run_cons, first, Option.bind_some, run_append, run_name_continue inside, Option.bind_some, run_cons,
    last, run_cons]

/-- A character that can stand for itself between quotes. -/
def isPlain (edition : Edition) (c : Char) : Bool :=
  isSourceCharacter edition c && c ≠ '"' && c ≠ '\\' && !isLineTerminator c

/-- What is written between quotes, and the text that it is read as. -/
inductive Spells (edition : Edition) : List Char → List Char → Prop where
  | nil : Spells edition [] []
  | plain {c : Char} {written text : List Char} (itself : isPlain edition c = true) (rest : Spells edition written text) :
      Spells edition (c :: written) (c :: text)
  | escaped {c plain : Char} {written text : List Char} (known : escapedCharacter c = some plain)
      (rest : Spells edition written text) : Spells edition ('\\' :: c :: written) (plain :: text)

theorem isSourceCharacter_of_escaped {c plain : Char} (known : escapedCharacter c = some plain) :
    isSourceCharacter edition c = true := by
  cases edition with
  | september2025 => rfl
  | october2021 =>
    unfold escapedCharacter at known
    split at known <;> first | decide | cases known

theorem isSourceCharacter_ascii {c : Char} (ascii : isSourceCharacter .october2021 c = true) :
    isSourceCharacter edition c = true := by
  cases edition with
  | october2021 => exact ascii
  | september2025 => rfl

theorem step_text_plain {c : Char} (itself : isPlain edition c = true) (read : List Char) (done : List Token) :
    step edition ⟨.text read, done⟩ c = some ⟨.text (c :: read), done⟩ := by
  simp only [isPlain, Bool.and_eq_true, Bool.not_eq_true', decide_eq_true_eq] at itself
  obtain ⟨⟨⟨source, quote⟩, backslash⟩, line⟩ := itself
  simp [step, stepText, source, quote, backslash, line]

theorem run_text_escaped {c plain : Char} (known : escapedCharacter c = some plain) (read : List Char)
    (done : List Token) : run edition ⟨.text read, done⟩ ['\\', c] = some ⟨.text (plain :: read), done⟩ := by
  have first : step edition ⟨.text read, done⟩ '\\' = some ⟨.escape read, done⟩ := by
    have source : isSourceCharacter edition '\\' = true := isSourceCharacter_ascii (by decide)
    simp [step, stepText, source]
  have second : step edition ⟨.escape read, done⟩ c = some ⟨.text (plain :: read), done⟩ := by
    simp [step, isSourceCharacter_of_escaped known, known]
  rw [run_cons, first, Option.bind_some, run_cons, second]
  rfl

theorem run_spelled {written text : List Char} (spells : Spells edition written text) (read : List Char)
    (done : List Token) : run edition ⟨.text read, done⟩ written = some ⟨.text (text.reverse ++ read), done⟩ := by
  induction spells generalizing read with
  | nil => rfl
  | plain itself _ ih =>
    rw [run_cons, step_text_plain itself, Option.bind_some, ih, List.reverse_cons, List.append_assoc, List.singleton_append]
  | @escaped c plain written text known _ ih =>
    have pieces : '\\' :: c :: written = ['\\', c] ++ written := rfl
    rw [pieces, run_append, run_text_escaped known, Option.bind_some, ih, List.reverse_cons, List.append_assoc,
      List.singleton_append]

/-- After the first quote, what is no quote is read as in the middle of a text. -/
theorem step_opened {c : Char} (other : c ≠ '"') (done : List Token) :
    step edition ⟨.opened, done⟩ c = step edition ⟨.text [], done⟩ c := by
  simp [step, other]

theorem step_quote (done : List Token) : step edition ⟨.between, done⟩ '"' = some ⟨.opened, done⟩ := by
  have source : isSourceCharacter edition '"' = true := isSourceCharacter_ascii (by decide)
  simp only [step, source, stepBetween]
  rfl

theorem run_opened {c : Char} (other : c ≠ '"') (done : List Token) (rest : List Char) :
    run edition ⟨.opened, done⟩ (c :: rest) = run edition ⟨.text [], done⟩ (c :: rest) := by
  rw [run_cons, run_cons, step_opened other]

theorem Spells.head_ne {c : Char} {written text : List Char} (spells : Spells edition (c :: written) text) : c ≠ '"' := by
  cases spells with
  | plain itself =>
    rintro rfl
    simp [isPlain] at itself
  | escaped => decide

/-- A text between quotes, and the character after it. -/
theorem run_literal {written text : List Char} (spells : Spells edition written text) {next : Char} (other : next ≠ '"')
    (done : List Token) (rest : List Char) :
    run edition ⟨.between, done⟩ ('"' :: written ++ '"' :: next :: rest) =
      run edition ⟨.between, .text text :: done⟩ (next :: rest) := by
  have source : isSourceCharacter edition '"' = true := isSourceCharacter_ascii (by decide)
  rw [List.cons_append, run_cons, step_quote, Option.bind_some]
  cases written with
  | nil =>
    cases spells
    have second : step edition ⟨.opened, done⟩ '"' = some ⟨.empty, done⟩ := by simp [step, source]
    have third : step edition ⟨.empty, done⟩ next = step edition ⟨.between, .text [] :: done⟩ next := by
      simp [step, other]
    rw [List.nil_append, run_cons, second, Option.bind_some, run_cons, third, run_cons]
  | cons c written =>
    have closes : step edition ⟨.text (text.reverse ++ []), done⟩ '"' = some ⟨.between, .text text :: done⟩ := by
      simp [step, stepText, source]
    rw [List.cons_append, run_opened spells.head_ne, ← List.cons_append, run_append, run_spelled spells, Option.bind_some,
      run_cons, closes, Option.bind_some]

/-- A character that cannot be in a text ends the reading. -/
theorem run_literal_bad {written text : List Char} (spells : Spells edition written text) {bad : Char}
    (wrong : isSourceCharacter edition bad = false ∨ isLineTerminator bad = true) (done : List Token)
    (rest : List Char) : run edition ⟨.between, done⟩ ('"' :: written ++ bad :: rest) = none := by
  have other : bad ≠ '"' ∧ bad ≠ '\\' := by
    constructor
    all_goals
      rintro rfl
      obtain source | line := wrong
      · rw [isSourceCharacter_ascii (by decide)] at source
        cases source
      · revert line
        decide
  have stops (read : List Char) : step edition ⟨.text read, done⟩ bad = none := by
    obtain source | line := wrong
    · simp [step, source]
    · simp [step, stepText, other, line]
  have ends : run edition ⟨.text [], done⟩ (written ++ bad :: rest) = none := by
    rw [run_append, run_spelled spells, Option.bind_some, run_cons, stops, Option.bind_none]
  rw [List.cons_append, run_cons, step_quote, Option.bind_some]
  cases written with
  | nil => rw [List.nil_append, run_opened other.1, ← List.nil_append (bad :: rest), ends]
  | cons c written => rw [List.cons_append, run_opened spells.head_ne, ← List.cons_append, ends]

/-- What a piece of a text that ends between tokens is read as, if it is read at all. -/
def Lexes (edition : Edition) (text : List Char) (tokens : Option (List Token)) : Prop :=
  ∀ done rest, run edition ⟨.between, done⟩ (text ++ rest) =
    tokens.bind fun tokens => run edition ⟨.between, tokens.reverse ++ done⟩ rest

theorem Lexes.nil : Lexes edition [] (some []) := fun _ _ => rfl

theorem bind_prepend (own : List Token) (tokens : Option (List Token)) (done : List Token) (rest : List Char) :
    ((tokens.map (own ++ ·)).bind fun tokens => run edition ⟨.between, tokens.reverse ++ done⟩ rest) =
      tokens.bind fun tokens => run edition ⟨.between, tokens.reverse ++ (own.reverse ++ done)⟩ rest := by
  cases tokens with
  | none => rfl
  | some tokens => rw [Option.map_some, Option.bind_some, Option.bind_some, List.reverse_append, List.append_assoc]

theorem Lexes.segment {segment text : List Char} {tokens : Option (List Token)} {own : List Token}
    (read : ∀ done, run edition ⟨.between, done⟩ segment = some ⟨.between, own.reverse ++ done⟩)
    (lexes : Lexes edition text tokens) : Lexes edition (segment ++ text) (tokens.map (own ++ ·)) := by
  intro done rest
  rw [List.append_assoc, run_append, read, Option.bind_some, lexes, bind_prepend]

theorem Lexes.append {first second : List Char} {tokens more : Option (List Token)} (lexes : Lexes edition first tokens)
    (lexes' : Lexes edition second more) :
    Lexes edition (first ++ second) (tokens.bind fun tokens => more.map (tokens ++ ·)) := by
  intro done rest
  rw [List.append_assoc, lexes]
  cases tokens with
  | none => rfl
  | some tokens => rw [Option.bind_some, lexes', Option.bind_some, bind_prepend]

theorem Lexes.name {c next : Char} {name text : List Char} {tokens : Option (List Token)} (start : isNameStart c = true)
    (inside : ∀ c ∈ name, isNameContinue c = true) (stops : isNameContinue next = false)
    (lexes : Lexes edition (next :: text) tokens) :
    Lexes edition (c :: name ++ next :: text) (tokens.map (.name (c :: name) :: ·)) := by
  intro done rest
  have read : run edition ⟨.between, done⟩ (c :: name ++ (next :: text ++ rest)) =
      run edition ⟨.between, .name (c :: name) :: done⟩ (next :: text ++ rest) :=
    run_name start inside stops done (text ++ rest)
  rw [List.append_assoc, read, lexes]
  exact (bind_prepend [.name (c :: name)] tokens done rest).symm

def isName : List Char → Bool
  | [] => false
  | c :: rest => isNameStart c && rest.all isNameContinue

/-- A text that begins with what neither a name nor a quote goes on with. -/
def stops : List Char → Bool
  | [] => false
  | c :: _ => !isNameContinue c && c ≠ '"'

theorem stops_append {piece : List Char} (stop : stops piece = true) (after : List Char) : stops (piece ++ after) = true := by
  cases piece with
  | nil => cases stop
  | cons => exact stop

theorem exists_of_stops {text : List Char} (stop : stops text = true) :
    ∃ next rest, text = next :: rest ∧ isNameContinue next = false ∧ next ≠ '"' := by
  cases text with
  | nil => cases stop
  | cons next rest =>
    simp only [stops, Bool.and_eq_true, Bool.not_eq_true', decide_eq_true_eq] at stop
    exact ⟨next, rest, rfl, stop⟩

theorem Lexes.word {name text : List Char} {tokens : Option (List Token)} (valid : isName name = true)
    (stop : stops text = true) (lexes : Lexes edition text tokens) :
    Lexes edition (name ++ text) (tokens.map (.name name :: ·)) := by
  obtain ⟨next, rest, rfl, ends, -⟩ := exists_of_stops stop
  cases name with
  | nil => cases valid
  | cons c name =>
    obtain ⟨start, inside⟩ := Bool.and_eq_true_iff.mp valid
    exact lexes.name start (List.all_eq_true.mp inside) ends

theorem Lexes.literal {written content text : List Char} {next : Char} {tokens : Option (List Token)}
    (spells : Spells edition written content) (other : next ≠ '"') (lexes : Lexes edition (next :: text) tokens) :
    Lexes edition ('"' :: written ++ '"' :: next :: text) (tokens.map (.text content :: ·)) := by
  intro done rest
  have read : run edition ⟨.between, done⟩ ('"' :: written ++ ('"' :: next :: text ++ rest)) =
      run edition ⟨.between, .text content :: done⟩ (next :: text ++ rest) := run_literal spells other done (text ++ rest)
  rw [List.append_assoc, read, lexes]
  exact (bind_prepend [.text content] tokens done rest).symm

theorem Lexes.literal_bad {written content text : List Char} {bad : Char} (spells : Spells edition written content)
    (wrong : isSourceCharacter edition bad = false ∨ isLineTerminator bad = true) :
    Lexes edition ('"' :: written ++ bad :: text) none := by
  intro done rest
  have none : run edition ⟨.between, done⟩ ('"' :: written ++ (bad :: text ++ rest)) = none :=
    run_literal_bad spells wrong done (text ++ rest)
  rw [List.append_assoc, none]
  rfl

theorem Lexes.lex_eq {text : List Char} {tokens : Option (List Token)} (lexes : Lexes edition text tokens) :
    lex edition text = tokens := by
  have all := lexes [] []
  rw [List.append_nil] at all
  rw [lex, all]
  cases tokens with
  | none => rfl
  | some tokens =>
    rw [Option.bind_some, List.append_nil]
    exact congrArg some (List.reverse_reverse tokens)

end EkaCI.Lib.GraphQl
