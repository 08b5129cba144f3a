import EkaCI.Forge.CheckRuns
import EkaCI.Lib.Chunks
import EkaCI.Lib.GraphQl
import EkaCI.Lib.Json
import EkaCI.Lib.Keyed

/-! Updates of check runs that are queued and flushed as mutations of many fields. The texts of
an update stand in the mutation as string literals. -/

namespace EkaCI

open Lib

def isNodeIdCharacter (c : Char) : Bool := c.isAlphanum || c ∈ ['_', '-', '=', '+', '/']

/-- An id that the forge has given out. -/
structure NodeId where
  text : List Char
  plain : text.all isNodeIdCharacter = true
  deriving DecidableEq

structure PendingUpdate where
  repoNodeId : NodeId
  checkRunNodeId : NodeId
  owner : String
  status : CheckRunStatus
  conclusion : Option CheckRunConclusion
  logTail : Option String
  outputTitle : Option String
  deriving DecidableEq

/-- In the order in which they were queued. -/
abbrev CheckRunBatcher := List PendingUpdate

namespace CheckRunBatcher

def queueUpdateWithLog (batcher : CheckRunBatcher) (owner : String) (repoNodeId checkRunNodeId : NodeId)
    (display : CheckRunDisplay) (logTail : Option String) : CheckRunBatcher :=
  batcher ++ [⟨repoNodeId, checkRunNodeId, owner, display.1, display.2, logTail, none⟩]

def queueUpdate (batcher : CheckRunBatcher) (owner : String) (repoNodeId checkRunNodeId : NodeId)
    (display : CheckRunDisplay) : CheckRunBatcher :=
  batcher.queueUpdateWithLog owner repoNodeId checkRunNodeId display none

def queueUpdateWithOutput (batcher : CheckRunBatcher) (owner : String) (repoNodeId checkRunNodeId : NodeId)
    (display : CheckRunDisplay) (outputTitle summary : String) : CheckRunBatcher :=
  batcher ++ [⟨repoNodeId, checkRunNodeId, owner, display.1, display.2, some summary, some outputTitle⟩]

end CheckRunBatcher

def CheckRunStatus.graphql : CheckRunStatus → String
  | .queued => "QUEUED"
  | .inProgress => "IN_PROGRESS"
  | .completed => "COMPLETED"

def CheckRunConclusion.graphql : CheckRunConclusion → String
  | .success => "SUCCESS"
  | .failure => "FAILURE"
  | .neutral => "NEUTRAL"
  | .timedOut => "TIMED_OUT"
  | .actionRequired => "ACTION_REQUIRED"

def replace (old : Char) (new : String) (text : List Char) : List Char :=
  text.flatMap fun c => if c = old then new.toList else [c]

/-- For a string literal. -/
def escape (text : List Char) : List Char := replace '\n' "\\n" (replace '"' "\\\"" (replace '\\' "\\\\" text))

def quoted (text : List Char) : List Char := '"' :: text ++ ['"']

/-- The alias of the update at a place. -/
def placeLabel (place : Nat) : List Char := 'u' :: Nat.toDigits 10 place

namespace PendingUpdate

def conclusionField (update : PendingUpdate) : List Char :=
  match update.conclusion with
  | some conclusion => ", conclusion: ".toList ++ conclusion.graphql.toList
  | none => []

def outputField (update : PendingUpdate) : List Char :=
  match update.logTail with
  | some log =>
    let escaped := escape log.toList
    let title := match update.outputTitle with
      | some title => escape title.toList
      | none => "Build failed".toList
    let summary := if update.outputTitle.isSome then escaped else "```\\n".toList ++ escaped ++ "\\n```".toList
    ", output: \x7btitle: ".toList ++ quoted title ++ ", summary: ".toList ++ quoted summary ++ "\x7d".toList
  | none => []

def mutation (place : Nat) (update : PendingUpdate) : List Char :=
  placeLabel place ++ ": updateCheckRun(input: \x7brepositoryId: ".toList ++ quoted update.repoNodeId.text ++
    ", checkRunId: ".toList ++ quoted update.checkRunNodeId.text ++ ", status: ".toList ++ update.status.graphql.toList ++
    update.conclusionField ++ update.outputField ++ "\x7d) \x7b checkRun \x7b databaseId \x7d \x7d".toList

end PendingUpdate

def mutations (updates : List PendingUpdate) : List (List Char) :=
  updates.zipIdx.map fun entry => entry.1.mutation entry.2

/-- What is sent for a batch that is not empty. -/
def batchQuery (updates : List PendingUpdate) : Option (List Char) :=
  if updates.isEmpty then none
  else some ("mutation \x7b\n  ".toList ++ List.intercalate "\n  ".toList (mutations updates) ++ "\n\x7d".toList)

/-- How many fields of the response have a check run. -/
def successCount (updates : List PendingUpdate) (response : Json) : Nat :=
  match response.get "data" with
  | none => 0
  | some data => (List.range updates.length).countP fun place =>
    ((data.get (String.ofList (placeLabel place))).bind (Json.get "checkRun")).isSome

def maxBatchSize : Nat := 50

/-- The updates by their owner. -/
def drain (batcher : CheckRunBatcher) : List (String × List PendingUpdate) :=
  (batcher.map PendingUpdate.owner).dedup.map fun owner => (owner, batcher.filter (·.owner = owner))

structure FlushState where
  /-- The batches, each for an owner. -/
  batches : List (String × List PendingUpdate)
  totalSent : Nat
  totalFailed : Nat

section Flush

variable {Client : Type} (getOctocrab : String → Option Client)
  (respond : List (String × List PendingUpdate) → Client → List Char → Option Json)

/-- A response may depend on everything that was sent before. -/
def sendBatch (batches : List (String × List PendingUpdate)) (client : Client) (updates : List PendingUpdate) :
    Option Nat :=
  match batchQuery updates with
  | none => some 0
  | some query => (respond batches client query).map (successCount updates)

def flushChunk (owner : String) (client : Client) (state : FlushState) (chunk : List PendingUpdate) : FlushState :=
  match sendBatch respond state.batches client chunk with
  | some count =>
    ⟨state.batches ++ [(owner, chunk)], state.totalSent + count, state.totalFailed + (chunk.length - count)⟩
  | none => ⟨state.batches ++ [(owner, chunk)], state.totalSent, state.totalFailed + chunk.length⟩

def flushOwner (state : FlushState) (group : String × List PendingUpdate) : FlushState :=
  match getOctocrab group.1 with
  | none => { state with totalFailed := state.totalFailed + group.2.length }
  | some client => (chunks (maxBatchSize - 1) group.2).foldl (flushChunk respond group.1 client) state

/-- The owners come in any order; the queue is empty afterwards. -/
def flush (groups : List (String × List PendingUpdate)) : FlushState × CheckRunBatcher :=
  (groups.foldl (flushOwner getOctocrab respond) ⟨[], 0, 0⟩, [])

end Flush

open GraphQl (Edition Fields Selections Operation Token Spells Lexes)

/-- A character that can be in a text of the language, and is no carriage return. -/
def isPrintable (edition : Edition) (c : Char) : Bool := GraphQl.isSourceCharacter edition c && c ≠ '\r'

namespace PendingUpdate

/-- The texts that come from elsewhere. -/
def texts (update : PendingUpdate) : List (List Char) :=
  match update.logTail with
  | none => []
  | some log => [((update.outputTitle.getD "Build failed").toList), log.toList]

/-- The log of a build stands in a fence. -/
def summaryText (update : PendingUpdate) (log : String) : List Char :=
  if update.outputTitle.isSome then log.toList else "```\n".toList ++ log.toList ++ "\n```".toList

def outputFields (update : PendingUpdate) : Fields :=
  match update.logTail with
  | none => .nil
  | some log => .cons "output".toList (.object (.cons "title".toList (.text (update.outputTitle.getD "Build failed").toList)
      (.cons "summary".toList (.text (update.summaryText log)) .nil))) .nil

def conclusionFields (update : PendingUpdate) : Fields :=
  match update.conclusion with
  | none => update.outputFields
  | some conclusion => .cons "conclusion".toList (.name conclusion.graphql.toList) update.outputFields

def inputFields (update : PendingUpdate) : Fields :=
  .cons "repositoryId".toList (.text update.repoNodeId.text) (.cons "checkRunId".toList (.text update.checkRunNodeId.text)
    (.cons "status".toList (.name update.status.graphql.toList) update.conclusionFields))

end PendingUpdate

/-- One `updateCheckRun` for each update, in order. -/
def updateSelections : List (PendingUpdate × Nat) → Selections
  | [] => .nil
  | (update, place) :: rest =>
    .field (some (placeLabel place)) "updateCheckRun".toList (.cons "input".toList (.object update.inputFields) .nil)
      (.field none "checkRun".toList .nil (.field none "databaseId".toList .nil .nil .nil) .nil) (updateSelections rest)

def updateOperation (updates : List PendingUpdate) : Operation := ⟨"mutation".toList, updateSelections updates.zipIdx⟩

section Literals

variable {edition : Edition}

theorem replace_append (old : Char) (new : String) (first second : List Char) :
    replace old new (first ++ second) = replace old new first ++ replace old new second := List.flatMap_append

theorem escape_append (first second : List Char) : escape (first ++ second) = escape first ++ escape second := by
  rw [escape, replace_append, replace_append, replace_append]
  rfl

theorem escape_singleton {c : Char} (line : c ≠ '\n') (quote : c ≠ '"') (backslash : c ≠ '\\') : escape [c] = [c] := by
  simp [escape, replace, line, quote, backslash]

theorem escape_cons (c : Char) (rest : List Char) : escape (c :: rest) = escape [c] ++ escape rest :=
  escape_append [c] rest

theorem spells_escape {text : List Char} (printable : ∀ c ∈ text, isPrintable edition c = true) :
    Spells edition (escape text) text := by
  induction text with
  | nil => exact .nil
  | cons c rest ih =>
    obtain ⟨first, others⟩ := List.forall_mem_cons.mp printable
    rw [escape_cons]
    by_cases line : c = '\n'
    · subst line
      exact .escaped rfl (ih others)
    by_cases quote : c = '"'
    · subst quote
      exact .escaped rfl (ih others)
    by_cases backslash : c = '\\'
    · subst backslash
      exact .escaped rfl (ih others)
    rw [escape_singleton line quote backslash]
    refine .plain ?_ (ih others)
    simp only [isPrintable, Bool.and_eq_true, decide_eq_true_eq] at first
    simp [GraphQl.isPlain, GraphQl.isLineTerminator, first, line, quote, backslash]

theorem exists_bad {text : List Char} (unprintable : ¬ ∀ c ∈ text, isPrintable edition c = true) :
    ∃ good bad rest, text = good ++ bad :: rest ∧ (∀ c ∈ good, isPrintable edition c = true) ∧
      isPrintable edition bad = false := by
  induction text with
  | nil => exact absurd (List.forall_mem_nil _) unprintable
  | cons c rest ih =>
    cases first : isPrintable edition c with
    | false => exact ⟨[], c, rest, rfl, List.forall_mem_nil _, first⟩
    | true =>
      obtain ⟨good, bad, rest, rfl, fine, wrong⟩ := ih fun others => unprintable (List.forall_mem_cons.mpr ⟨first, others⟩)
      exact ⟨c :: good, bad, rest, rfl, List.forall_mem_cons.mpr ⟨first, fine⟩, wrong⟩

theorem quoted_append (text after : List Char) : quoted text ++ after = '"' :: text ++ '"' :: after := by
  rw [quoted, List.append_assoc, List.singleton_append]

theorem lexes_escape (text : List Char) {after : List Char} {tokens : Option (List Token)} (stop : GraphQl.stops after = true)
    (lexes : Lexes edition after tokens) :
    Lexes edition (quoted (escape text) ++ after)
      (if text.all (isPrintable edition) then tokens.map (.text text :: ·) else none) := by
  rw [quoted_append]
  obtain ⟨next, after, rfl, -, other⟩ := GraphQl.exists_of_stops stop
  split
  · rename_i printable
    exact lexes.literal (spells_escape (List.all_eq_true.mp printable)) other
  · rename_i unprintable
    obtain ⟨good, bad, rest, rfl, fine, wrong⟩ := exists_bad fun all => unprintable (List.all_eq_true.mpr all)
    have wrong' : GraphQl.isSourceCharacter edition bad = false ∨ GraphQl.isLineTerminator bad = true := by
      simp only [isPrintable, Bool.and_eq_false_iff, decide_eq_false_iff_not, not_not] at wrong
      obtain source | rfl := wrong
      · exact .inl source
      · exact .inr rfl
    have plain : escape [bad] = [bad] := by
      have printable : ∀ c, c = '\n' ∨ c = '"' ∨ c = '\\' → isPrintable edition c = true := by
        rintro c (rfl | rfl | rfl) <;> cases edition <;> rfl
      refine escape_singleton ?_ ?_ ?_
      all_goals
        rintro rfl
        rw [printable _ (by simp)] at wrong
        cases wrong
    have pieces : '"' :: escape (good ++ bad :: rest) ++ '"' :: next :: after =
        '"' :: escape good ++ bad :: (escape rest ++ '"' :: next :: after) := by
      rw [escape_append, escape_cons, plain]
      simp
    rw [pieces]
    exact Lexes.literal_bad (spells_escape fine) wrong'

theorem isPlain_of_isNodeIdCharacter {c : Char} (known : isNodeIdCharacter c = true) : GraphQl.isPlain edition c = true := by
  have source : GraphQl.isSourceCharacter edition c = true := by
    rw [isNodeIdCharacter, Bool.or_eq_true] at known
    obtain letter | other := known
    · refine GraphQl.isSourceCharacter_of_isNameContinue ?_
      rw [Char.isAlphanum, Bool.or_eq_true] at letter
      simpa [GraphQl.isNameContinue, GraphQl.isNameStart, or_assoc] using .inr letter
    · simp only [decide_eq_true_eq, List.mem_cons, List.not_mem_nil, or_false] at other
      obtain rfl | rfl | rfl | rfl | rfl := other
      all_goals exact GraphQl.isSourceCharacter_ascii (by decide)
  have different : ∀ other, isNodeIdCharacter other = false → c ≠ other := by
    rintro other no rfl
    rw [known] at no
    cases no
  simp [GraphQl.isPlain, GraphQl.isLineTerminator, source, different '"' (by decide), different '\\' (by decide),
    different '\n' (by decide), different '\r' (by decide)]

theorem spells_nodeId (id : NodeId) : Spells edition id.text id.text := by
  have plain : ∀ c ∈ id.text, GraphQl.isPlain edition c = true := fun c member =>
    isPlain_of_isNodeIdCharacter (List.all_eq_true.mp id.plain c member)
  generalize id.text = text at plain
  induction text with
  | nil => exact .nil
  | cons c rest ih =>
    obtain ⟨first, others⟩ := List.forall_mem_cons.mp plain
    exact .plain first (ih others)

theorem isName_place (place : Nat) : GraphQl.isName (placeLabel place) = true := by
  have digits : (Nat.toDigits 10 place).all GraphQl.isNameContinue = true := by
    refine List.all_eq_true.mpr fun digit member => ?_
    rw [GraphQl.isNameContinue, Nat.isDigit_of_mem_toDigits (by omega) (by omega) member, Bool.or_true]
  rw [placeLabel, GraphQl.isName, digits]
  rfl

theorem isName_status (status : CheckRunStatus) : GraphQl.isName status.graphql.toList = true := by
  cases status <;> decide

theorem isName_conclusion (conclusion : CheckRunConclusion) : GraphQl.isName conclusion.graphql.toList = true := by
  cases conclusion <;> decide

end Literals

section Mutation

variable {edition : Edition}

def closing : List Char := "\x7d) \x7b checkRun \x7b databaseId \x7d \x7d".toList

def closingTokens : List Token :=
  [.punctuator '}', .punctuator ')', .punctuator '{', .name "checkRun".toList, .punctuator '{', .name "databaseId".toList,
    .punctuator '}', .punctuator '}']

theorem lexes_closing : Lexes edition closing (some closingTokens) := by
  have read (done : List Token) : GraphQl.run edition ⟨.between, done⟩ closing =
      some ⟨.between, closingTokens.reverse ++ done⟩ := by
    cases edition <;> rfl
  have all := Lexes.segment read Lexes.nil
  rwa [List.append_nil] at all

variable {tokens : Option (List Token)} {after : List Char}

theorem lexes_piece (piece : List Char) (own : List Token) {text : List Char}
    (read : ∀ edition done, GraphQl.run edition ⟨.between, done⟩ piece = some ⟨.between, own.reverse ++ done⟩)
    (lexes : Lexes edition text tokens) : Lexes edition (piece ++ text) (tokens.map (own ++ ·)) :=
  Lexes.segment (read edition) lexes

/-- All that is not the code's own can be printed. -/
def PendingUpdate.isPrintable (edition : Edition) (update : PendingUpdate) : Bool :=
  update.texts.all fun text => text.all (EkaCI.isPrintable edition)

theorem escape_fence (log : List Char) :
    "```\\n".toList ++ escape log ++ "\\n```".toList = escape ("```\n".toList ++ log ++ "\n```".toList) := by
  rw [escape_append, escape_append]
  rfl

theorem all_fence (log : List Char) :
    ("```\n".toList ++ log ++ "\n```".toList).all (isPrintable edition) = log.all (isPrintable edition) := by
  have ends : "```\n".toList.all (isPrintable edition) = true ∧ "\n```".toList.all (isPrintable edition) = true := by
    cases edition <;> decide
  rw [List.all_append, List.all_append, ends.1, ends.2, Bool.true_and, Bool.and_true]

variable (update : PendingUpdate)

theorem outputField_eq {log : String} (there : update.logTail = some log) (after : List Char) :
    update.outputField ++ after = ", output: \x7btitle: ".toList ++
      (quoted (escape (update.outputTitle.getD "Build failed").toList) ++ (", summary: ".toList ++
        (quoted (escape (update.summaryText log)) ++ ("\x7d".toList ++ after)))) := by
  rw [PendingUpdate.outputField, there]
  cases titled : update.outputTitle with
  | some title =>
    have summary : update.summaryText log = log.toList := if_pos (by rw [titled]; rfl)
    rw [summary]
    simp only [List.append_assoc, Option.isSome_some, if_true, Option.getD_some]
  | none =>
    have summary : update.summaryText log = "```\n".toList ++ log.toList ++ "\n```".toList :=
      if_neg (by rw [titled]; exact Bool.false_ne_true)
    have own : escape "Build failed".toList = "Build failed".toList := rfl
    rw [summary, ← escape_fence, Option.getD_none, own]
    simp only [List.append_assoc, Option.isSome_none, Bool.false_eq_true, if_false]

theorem lexes_output (lexes : Lexes edition after tokens) : Lexes edition (update.outputField ++ after)
      (if update.isPrintable edition then tokens.map (update.outputFields.tokens ++ ·) else none) := by
  cases there : update.logTail with
  | none =>
    have field : update.outputField = [] := by rw [PendingUpdate.outputField, there]
    have fields : update.outputFields = .nil := by rw [PendingUpdate.outputFields, there]
    have printable : update.isPrintable edition = true := by rw [PendingUpdate.isPrintable, PendingUpdate.texts, there]; rfl
    rw [field, fields, if_pos printable]
    simpa [Fields.tokens] using lexes
  | some log =>
    have fields : update.outputFields = .cons "output".toList (.object (.cons "title".toList
        (.text (update.outputTitle.getD "Build failed").toList)
        (.cons "summary".toList (.text (update.summaryText log)) .nil))) .nil := by
      rw [PendingUpdate.outputFields, there]
    have printable : update.isPrintable edition = ((update.outputTitle.getD "Build failed").toList.all (isPrintable edition) &&
        (update.summaryText log).all (isPrintable edition)) := by
      have fenced : (update.summaryText log).all (isPrintable edition) = log.toList.all (isPrintable edition) := by
        rw [PendingUpdate.summaryText]
        split
        · rfl
        · exact all_fence log.toList
      rw [fenced, PendingUpdate.isPrintable, PendingUpdate.texts, there, List.all_cons, List.all_cons, List.all_nil,
        Bool.and_true]
    have ends := lexes_piece "\x7d".toList [.punctuator '}'] (fun edition done => by cases edition <;> rfl) lexes
    have summary := lexes_escape (update.summaryText log) (GraphQl.stops_append (by decide) after) ends
    have between := lexes_piece ", summary: ".toList [.name "summary".toList, .punctuator ':']
      (fun edition done => by cases edition <;> rfl) summary
    have title := lexes_escape (update.outputTitle.getD "Build failed").toList (GraphQl.stops_append (by decide) _) between
    have all := lexes_piece ", output: \x7btitle: ".toList
      ([.name "output".toList, .punctuator ':', .punctuator '{', .name "title".toList, .punctuator ':'])
      (fun edition done => by cases edition <;> rfl) title
    rw [outputField_eq update there, printable, fields]
    refine cast (congrArg (Lexes edition _) ?_) all
    cases (update.outputTitle.getD "Build failed").toList.all (EkaCI.isPrintable edition) <;>
      cases (update.summaryText log).all (EkaCI.isPrintable edition) <;> cases tokens <;> rfl

theorem stops_output : GraphQl.stops (update.outputField ++ closing) = true := by
  have last : GraphQl.stops closing = true := by decide
  rw [PendingUpdate.outputField]
  cases update.logTail with
  | none => exact last
  | some log =>
    simp only [List.append_assoc]
    exact GraphQl.stops_append (by decide) _

theorem lexes_tail :
    Lexes edition (update.conclusionField ++ (update.outputField ++ closing))
      (if update.isPrintable edition then some (update.conclusionFields.tokens ++ closingTokens) else none) := by
  have output : Lexes edition _ _ := lexes_output update lexes_closing
  rw [PendingUpdate.conclusionField, PendingUpdate.conclusionFields]
  cases update.conclusion with
  | none => exact output
  | some conclusion =>
    have word := Lexes.word (isName_conclusion conclusion) (stops_output update) output
    have all := lexes_piece ", conclusion: ".toList [.name "conclusion".toList, .punctuator ':']
      (fun edition done => by cases edition <;> rfl) word
    rw [← List.append_assoc] at all
    refine cast (congrArg (Lexes edition _) ?_) all
    cases update.isPrintable edition <;> rfl

theorem stops_tail : GraphQl.stops (update.conclusionField ++ (update.outputField ++ closing)) = true := by
  rw [PendingUpdate.conclusionField]
  cases update.conclusion with
  | none => exact stops_output update
  | some conclusion =>
    simp only [List.append_assoc]
    exact GraphQl.stops_append (by decide) _

theorem lexes_nodeId (id : NodeId) (stop : GraphQl.stops after = true) (lexes : Lexes edition after tokens) :
    Lexes edition (quoted id.text ++ after) (tokens.map (.text id.text :: ·)) := by
  rw [quoted_append]
  obtain ⟨next, after, rfl, -, other⟩ := GraphQl.exists_of_stops stop
  exact lexes.literal (spells_nodeId id) other

def mutationTokens (place : Nat) (update : PendingUpdate) : List Token :=
  .name (placeLabel place) :: .punctuator ':' :: .name "updateCheckRun".toList :: .punctuator '(' ::
    .name "input".toList :: .punctuator ':' :: .punctuator '{' :: (update.inputFields.tokens ++ closingTokens)

theorem tokens_updateSelections (place : Nat) (rest : List (PendingUpdate × Nat)) :
    (updateSelections ((update, place) :: rest)).tokens = mutationTokens place update ++ (updateSelections rest).tokens := by
  simp [updateSelections, GraphQl.Selections.tokens_field, GraphQl.labelTokens, GraphQl.argumentTokens,
    GraphQl.selectedTokens, GraphQl.Selections.isNil, GraphQl.Fields.isNil, GraphQl.Fields.tokens, GraphQl.Value.tokens,
    GraphQl.Selections.tokens, mutationTokens, closingTokens]

theorem mutation_eq (place : Nat) (update : PendingUpdate) :
    update.mutation place = placeLabel place ++ (": updateCheckRun(input: \x7brepositoryId: ".toList ++
      (quoted update.repoNodeId.text ++ (", checkRunId: ".toList ++ (quoted update.checkRunNodeId.text ++
        (", status: ".toList ++ (update.status.graphql.toList ++
          (update.conclusionField ++ (update.outputField ++ closing)))))))) := by
  unfold PendingUpdate.mutation closing
  simp only [List.append_assoc]

theorem lexes_mutation (place : Nat) (update : PendingUpdate) : Lexes edition (update.mutation place)
    (if update.isPrintable edition then some (mutationTokens place update) else none) := by
  have tail : Lexes edition _ _ := lexes_tail update
  have status := Lexes.word (isName_status update.status) (stops_tail update) tail
  have third := lexes_piece ", status: ".toList [.name "status".toList, .punctuator ':']
    (fun edition done => by cases edition <;> rfl) status
  have checkRun := lexes_nodeId update.checkRunNodeId (GraphQl.stops_append (by decide) _) third
  have second := lexes_piece ", checkRunId: ".toList [.name "checkRunId".toList, .punctuator ':']
    (fun edition done => by cases edition <;> rfl) checkRun
  have repo := lexes_nodeId update.repoNodeId (GraphQl.stops_append (by decide) _) second
  have first := lexes_piece ": updateCheckRun(input: \x7brepositoryId: ".toList
    [.punctuator ':', .name "updateCheckRun".toList, .punctuator '(', .name "input".toList, .punctuator ':',
      .punctuator '{', .name "repositoryId".toList, .punctuator ':']
    (fun edition done => by cases edition <;> rfl) repo
  have all := Lexes.word (isName_place place) (GraphQl.stops_append (by decide) _) first
  rw [mutation_eq]
  refine cast (congrArg (Lexes edition _) ?_) all
  cases update.isPrintable edition with
  | false => simp only [Bool.false_eq_true, if_false, Option.map_none]
  | true =>
    simp only [if_true, Option.map_some, mutationTokens, PendingUpdate.inputFields, Fields.tokens, GraphQl.Value.tokens,
      List.cons_append, List.nil_append]

theorem lexes_mutations (entries : List (PendingUpdate × Nat)) :
    Lexes edition (List.intercalate "\n  ".toList (entries.map fun entry => entry.1.mutation entry.2))
      (if entries.all (·.1.isPrintable edition) then some (updateSelections entries).tokens else none) := by
  induction entries with
  | nil => exact Lexes.nil
  | cons entry rest ih =>
    obtain ⟨update, place⟩ := entry
    have first : Lexes edition _ _ := lexes_mutation place update
    cases rest with
    | nil =>
      simp only [List.map_cons, List.map_nil, List.intercalate_singleton, List.all_cons, List.all_nil, Bool.and_true]
      rw [tokens_updateSelections, updateSelections, GraphQl.Selections.tokens, List.append_nil]
      exact first
    | cons other rest =>
      have separated := lexes_piece "\n  ".toList [] (fun edition done => by cases edition <;> rfl) ih
      have all := first.append separated
      rw [List.map_cons, List.map_cons, List.intercalate_cons_cons, List.append_assoc, List.all_cons,
        tokens_updateSelections]
      refine cast (congrArg (Lexes edition _) ?_) all
      generalize (other :: rest).all (fun entry => entry.1.isPrintable edition) = others
      cases update.isPrintable edition <;> cases others <;> simp

theorem lexes_query (updates : List PendingUpdate) :
    Lexes edition ("mutation \x7b\n  ".toList ++ (List.intercalate "\n  ".toList (mutations updates) ++ "\n\x7d".toList))
      (if updates.all (·.isPrintable edition) then
        some (.name "mutation".toList :: .punctuator '{' :: ((updateSelections updates.zipIdx).tokens ++ [.punctuator '}']))
      else none) := by
  have last : Lexes edition ("\n\x7d".toList ++ []) _ :=
    lexes_piece "\n\x7d".toList [.punctuator '}'] (fun edition done => by cases edition <;> rfl) Lexes.nil
  rw [List.append_nil] at last
  have middle : Lexes edition _ _ := lexes_mutations updates.zipIdx
  have body := middle.append last
  have all := lexes_piece "mutation \x7b\n  ".toList [.name "mutation".toList, .punctuator '{']
    (fun edition done => by cases edition <;> rfl) body
  have same : updates.zipIdx.all (fun entry => entry.1.isPrintable edition) = updates.all (·.isPrintable edition) := by
    have firsts : updates.zipIdx.map Prod.fst = updates := List.zipIdx_map_fst 0 updates
    conv_rhs => rw [← firsts, List.all_map]
    rfl
  rw [same] at all
  refine cast (congrArg (Lexes edition _) ?_) all
  cases updates.all (·.isPrintable edition) <;> simp

theorem parse_batchQuery {updates : List PendingUpdate} {query : List Char} (sent : batchQuery updates = some query) :
    GraphQl.parse edition query =
      if updates.all (·.isPrintable edition) then some (updateOperation updates) else none := by
  cases updates with
  | nil => cases sent
  | cons first rest =>
    cases sent
    rw [GraphQl.parse, List.append_assoc, (lexes_query (first :: rest)).lex_eq]
    split
    · have read := GraphQl.parseTokens_tokens (updateOperation (first :: rest)) rfl rfl
      rw [Option.bind_some, ← read]
      rfl
    · rfl

end Mutation

section Accounting

variable {Client : Type} (getOctocrab : String → Option Client)
  (respond : List (String × List PendingUpdate) → Client → List Char → Option Json)

theorem successCount_le (updates : List PendingUpdate) (response : Json) :
    successCount updates response ≤ updates.length := by
  rw [successCount]
  split
  · exact Nat.zero_le _
  · exact (List.countP_le_length).trans (by rw [List.length_range])

theorem sendBatch_le {batches : List (String × List PendingUpdate)} {client : Client} {updates : List PendingUpdate}
    {count : Nat} (sent : sendBatch respond batches client updates = some count) : count ≤ updates.length := by
  rw [sendBatch] at sent
  split at sent
  · cases sent
    exact Nat.zero_le _
  · obtain ⟨response, -, rfl⟩ := Option.map_eq_some_iff.mp sent
    exact successCount_le updates response

theorem flushChunk_spec (owner : String) (client : Client) (state : FlushState) (chunk : List PendingUpdate) :
    (flushChunk respond owner client state chunk).batches = state.batches ++ [(owner, chunk)] ∧
      (flushChunk respond owner client state chunk).totalSent + (flushChunk respond owner client state chunk).totalFailed =
        state.totalSent + state.totalFailed + chunk.length := by
  rw [flushChunk]
  split
  · rename_i count sent
    have few := sendBatch_le respond sent
    refine ⟨rfl, ?_⟩
    dsimp only
    omega
  · refine ⟨rfl, ?_⟩
    dsimp only
    omega

theorem foldl_flushChunk (owner : String) (client : Client) (state : FlushState) (chunked : List (List PendingUpdate)) :
    (chunked.foldl (flushChunk respond owner client) state).batches = state.batches ++ chunked.map (owner, ·) ∧
      (chunked.foldl (flushChunk respond owner client) state).totalSent +
          (chunked.foldl (flushChunk respond owner client) state).totalFailed =
        state.totalSent + state.totalFailed + chunked.flatten.length := by
  induction chunked generalizing state with
  | nil => simp
  | cons chunk rest ih =>
    obtain ⟨batches, totals⟩ := flushChunk_spec respond owner client state chunk
    obtain ⟨batches', totals'⟩ := ih (flushChunk respond owner client state chunk)
    rw [List.foldl_cons, batches', batches, totals', totals, List.flatten_cons, List.length_append]
    exact ⟨by simp, by omega⟩

/-- The batches of an owner that there is a client for. -/
def batchesOf (group : String × List PendingUpdate) :
    List (String × List PendingUpdate) :=
  if (getOctocrab group.1).isSome then (chunks (maxBatchSize - 1) group.2).map (group.1, ·) else []

theorem flushOwner_spec (state : FlushState) (group : String × List PendingUpdate) :
    (flushOwner getOctocrab respond state group).batches = state.batches ++ batchesOf getOctocrab group ∧
      (flushOwner getOctocrab respond state group).totalSent + (flushOwner getOctocrab respond state group).totalFailed =
        state.totalSent + state.totalFailed + group.2.length := by
  rw [flushOwner, batchesOf]
  cases getOctocrab group.1 with
  | none =>
    refine ⟨by simp, ?_⟩
    dsimp only
    omega
  | some client =>
    have spec := foldl_flushChunk respond group.1 client state (chunks (maxBatchSize - 1) group.2)
    rwa [flatten_chunks] at spec

theorem foldl_flushOwner (state : FlushState) (groups : List (String × List PendingUpdate)) :
    (groups.foldl (flushOwner getOctocrab respond) state).batches =
        state.batches ++ groups.flatMap (batchesOf getOctocrab) ∧
      (groups.foldl (flushOwner getOctocrab respond) state).totalSent +
          (groups.foldl (flushOwner getOctocrab respond) state).totalFailed =
        state.totalSent + state.totalFailed + (groups.flatMap Prod.snd).length := by
  induction groups generalizing state with
  | nil => simp
  | cons group rest ih =>
    obtain ⟨batches, totals⟩ := flushOwner_spec getOctocrab respond state group
    obtain ⟨batches', totals'⟩ := ih (flushOwner getOctocrab respond state group)
    rw [List.foldl_cons, batches', batches, totals', totals, List.flatMap_cons, List.flatMap_cons, List.length_append]
    exact ⟨by simp, by omega⟩

variable (batcher : CheckRunBatcher)

theorem nodup_drain : ((drain batcher).map Prod.fst).Nodup := by
  have owners : (drain batcher).map Prod.fst = (batcher.map PendingUpdate.owner).dedup := by
    rw [drain, List.map_map]
    exact List.map_id _
  rw [owners]
  exact List.nodup_dedup _

theorem group_of_drain (owner : String) :
    ((findKey Prod.fst (drain batcher) owner).map Prod.snd).getD [] = batcher.filter (·.owner = owner) := by
  cases found : findKey Prod.fst (drain batcher) owner with
  | none =>
    have absent : ∀ update ∈ batcher, update.owner ≠ owner := by
      rintro update member rfl
      refine findKey_eq_none_iff.mp found (update.owner, batcher.filter (·.owner = update.owner)) ?_ rfl
      exact List.mem_map.mpr ⟨update.owner, List.mem_dedup.mpr (List.mem_map_of_mem member), rfl⟩
    exact (List.filter_eq_nil_iff.mpr fun update member => by simp [absent update member]).symm
  | some group =>
    obtain ⟨member, rfl⟩ := (findKey_eq_some_iff (nodup_drain batcher)).mp found
    obtain ⟨owner, -, rfl⟩ := List.mem_map.mp member
    rfl

theorem drain_perm : ((drain batcher).flatMap Prod.snd).Perm batcher := by
  have own : ∀ group ∈ drain batcher, ∀ update ∈ group.2, update.owner = group.1 := by
    intro group member update inside
    obtain ⟨owner, -, rfl⟩ := List.mem_map.mp member
    simpa using (List.mem_filter.mp inside).2
  have agree (owner : String) : (((drain batcher).flatMap Prod.snd).filter (·.owner = owner)).Perm
      (batcher.filter (·.owner = owner)) := by
    rw [filter_flatMap_key (nodup_drain batcher) own, group_of_drain]
  exact perm_of_filter_key agree

end Accounting

/-- Whatever the clients and the responses are and in whichever order the owners come: each owner
that there is a client for gets its updates in their order, and the two counts make up all. -/
def FlushesWell (batcher : CheckRunBatcher) : Prop :=
  ∀ (Client : Type) (getOctocrab : String → Option Client)
    (respond : List (String × List PendingUpdate) → Client → List Char → Option Json)
    (groups : List (String × List PendingUpdate)), groups.Perm (drain batcher) →
    (flush getOctocrab respond groups).2 = [] ∧
    (flush getOctocrab respond groups).1.totalSent + (flush getOctocrab respond groups).1.totalFailed = batcher.length ∧
    ∀ owner, (((flush getOctocrab respond groups).1.batches.filter (·.1 = owner)).flatMap Prod.snd) =
      if (getOctocrab owner).isSome then batcher.filter (·.owner = owner) else []

theorem flushesWell (batcher : CheckRunBatcher) : FlushesWell batcher := by
  intro Client getOctocrab respond groups anyOrder
  obtain ⟨batches, totals⟩ := foldl_flushOwner getOctocrab respond ⟨[], 0, 0⟩ groups
  refine ⟨rfl, ?_, fun owner => ?_⟩
  · have all : (groups.flatMap Prod.snd).length = batcher.length :=
      ((anyOrder.flatMap_right _).trans (drain_perm batcher)).length_eq
    rw [flush, totals, all]
    exact Nat.zero_add _
  · have unique : (groups.map Prod.fst).Nodup := (anyOrder.map Prod.fst).nodup_iff.mpr (nodup_drain batcher)
    have own : ∀ group ∈ groups, ∀ batch ∈ batchesOf getOctocrab group, batch.1 = group.1 := by
      intro group _ batch inside
      rw [batchesOf] at inside
      split at inside
      · obtain ⟨chunk, -, rfl⟩ := List.mem_map.mp inside
        rfl
      · cases inside
    have group := group_of_drain batcher owner
    rw [flush, batches, List.nil_append, filter_flatMap_key unique own, findKey_of_perm unique anyOrder, ← group]
    cases found : findKey Prod.fst (drain batcher) owner with
    | none => simp
    | some pair =>
      rw [Option.map_some, Option.getD_some, Option.map_some, Option.getD_some, batchesOf, key_of_findKey found]
      split
      · rw [List.flatMap_map]
        simp [flatten_chunks]
      · rfl

/-- The query of the updates is one `updateCheckRun` for each of them, with its texts. -/
def ReadsBack (edition : Edition) (updates : List PendingUpdate) : Prop :=
  ∀ query, batchQuery updates = some query → GraphQl.parse edition query = some (updateOperation updates)

/-- The queue is flushed as it should be exactly if no text in it has a carriage return or a
character that a document cannot have. -/
theorem readsBack_and_flushesWell_iff (edition : Edition) (updates : List PendingUpdate) :
    ReadsBack edition updates ∧ FlushesWell updates ↔
      ∀ update ∈ updates, ∀ text ∈ update.texts, ∀ c ∈ text, GraphQl.isSourceCharacter edition c = true ∧ c ≠ '\r' := by
  have printable : updates.all (·.isPrintable edition) = true ↔
      ∀ update ∈ updates, ∀ text ∈ update.texts, ∀ c ∈ text, GraphQl.isSourceCharacter edition c = true ∧ c ≠ '\r' := by
    simp only [PendingUpdate.isPrintable, isPrintable, List.all_eq_true, Bool.and_eq_true, decide_eq_true_eq]
  rw [← printable, and_iff_left (flushesWell updates)]
  constructor
  · intro reads
    cases updates with
    | nil => rfl
    | cons first rest =>
      have sent : batchQuery (first :: rest) = some _ := rfl
      have parsed := reads _ sent
      rw [parse_batchQuery sent] at parsed
      split at parsed
      · assumption
      · cases parsed
  · intro all query sent
    rw [parse_batchQuery sent, if_pos all]

/-- The end of a log with a line that was written anew. -/
def progressLog : PendingUpdate where
  repoNodeId := ⟨"R_kgDOGmBAaw".toList, by decide⟩
  checkRunNodeId := ⟨"CR_kwDOGmBAa88AAAAB".toList, by decide⟩
  owner := "owner"
  status := .completed
  conclusion := some .failure
  logTail := some "50%\r100%"
  outputTitle := none

theorem not_readsBack_progressLog : ¬ ∀ edition updates, ReadsBack edition updates ∧ FlushesWell updates := by
  intro claimed
  have sent : batchQuery [progressLog] = some _ := rfl
  have parsed := (claimed .september2025 [progressLog]).1 _ sent
  have wrong : [progressLog].all (·.isPrintable .september2025) = false := by decide
  rw [parse_batchQuery sent, wrong] at parsed
  cases parsed

end EkaCI
