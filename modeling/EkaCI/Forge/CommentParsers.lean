import EkaCI.Forge.GitHubTasks

/-! The commands in comments. On GitHub a comment is read line by line, and a command is a
line whose first words say so, in whatever case. The parsers for Gitea and GitLab take the
comment as a whole, from its beginning and letter by letter. -/

namespace EkaCI

namespace CommentCommand

def words (line : List Char) : List (List Char) := (line.splitOnP isWhitespace).filter fun word => !word.isEmpty

/-- The lines of a text end with a line feed, or with a carriage return and a line feed. -/
def dropReturn (line : List Char) : List Char := if line.getLast? = some '\r' then line.dropLast else line

def lines (body : List Char) : List (List Char) :=
  let parts := body.splitOn '\n'
  parts.dropLast.map dropReturn ++ parts.getLast?.toList.filter fun part => !part.isEmpty

/-- The first line that is a command. -/
def parseCommentCommand (body : String) : Option CommentCommand := (lines body.toList).findSome? parseLine

end CommentCommand

/-- A command to Gitea or to GitLab, with the method as it is written. -/
inductive TextCommand where
  | merge (method : Option String)
  | mergeCancel
  deriving DecidableEq

open CommentCommand

namespace TextCommand

/-- The parser of both forges. -/
def parseCommentCommand (body : String) : Option TextCommand := do
  let afterMention ← ("@eka-ci".toList.isPrefixOf? (trim body.toList)).map trim
  if afterMention = [] then none
  else do
    let afterMerge ← ("merge".toList.isPrefixOf? afterMention).map trim
    if afterMerge = [] then some (.merge none)
    else if afterMerge = "cancel".toList then some .mergeCancel
    else do
      let method ← (words afterMerge).head?
      some (.merge (some (String.ofList method)))

end TextCommand

namespace GiteaComments

def parseCommentCommand (body : String) : Option TextCommand := TextCommand.parseCommentCommand body

end GiteaComments

namespace GitLabComments

def parseCommentCommand (body : String) : Option TextCommand := TextCommand.parseCommentCommand body

end GitLabComments

namespace CommentCommand

/-- The word is this one, whatever the case of its ASCII letters. -/
def Reads (word : List Char) (text : String) : Prop := word.map Char.toLower = text.toList

/-- The line begins with the mention and, right after it, the verb. -/
def IsCommand (line : List Char) : Prop :=
  ∃ mention verb arguments, words line = mention :: verb :: arguments ∧ Reads mention "@eka-ci" ∧ Reads verb "merge"

/-- What the third word asks for: an unknown one is as good as none. -/
inductive Asks : Option (List Char) → CommentCommand → Prop where
  | bare : Asks none (.merge none)
  | cancel {word : List Char} (reads : Reads word "cancel") : Asks (some word) .mergeCancel
  | method {word : List Char} {method : MergeMethod} (reads : Reads word method.asStr) :
      Asks (some word) (.merge (some method))
  | unknown {word : List Char} (uncancelled : ¬ Reads word "cancel") (strange : ∀ method : MergeMethod, ¬ Reads word method.asStr) :
      Asks (some word) (.merge none)

/-- The first command of a comment is on this line. -/
def FirstCommand (body : String) (line : List Char) : Prop :=
  ∃ before after, lines body.toList = before ++ line :: after ∧ IsCommand line ∧ ∀ earlier ∈ before, ¬ IsCommand earlier

/-- What the comment asks for, by the rules. -/
def Documented (body : String) : Option CommentCommand → Prop
  | none => ∀ line ∈ lines body.toList, ¬ IsCommand line
  | some command => ∃ line, FirstCommand body line ∧ Asks (words line)[2]? command

/-- The command as the other forges would write it. -/
def asText : CommentCommand → TextCommand
  | .merge method => .merge (method.map MergeMethod.asStr)
  | .mergeCancel => .mergeCancel

/-- The three parsers read the comment by the same, documented rules. -/
structure ParsersAgree (body : String) : Prop where
  documented : Documented body (parseCommentCommand body)
  gitea : GiteaComments.parseCommentCommand body = (parseCommentCommand body).map asText
  gitLab : GitLabComments.parseCommentCommand body = (parseCommentCommand body).map asText

/-- The trimmed comment begins with the mention and the verb, with nothing but blanks in
between, and what follows, trimmed, is the text. -/
def Opens (body : String) (text : List Char) : Prop :=
  ∃ rest more, trim body.toList = "@eka-ci".toList ++ rest ∧ trim rest = "merge".toList ++ more ∧ trim more = text

/-- The third word of a line and a text say the same. -/
inductive SaysSame : Option (List Char) → List Char → Prop where
  | bare : SaysSame none []
  | cancel {word : List Char} (reads : Reads word "cancel") : SaysSame (some word) "cancel".toList
  | method {word text : List Char} {method : MergeMethod} (reads : Reads word method.asStr)
      (first : (words text).head? = some method.asStr.toList) : SaysSame (some word) text
  | unknown {word : List Char} (uncancelled : ¬ Reads word "cancel") (strange : ∀ method : MergeMethod, ¬ Reads word method.asStr) :
      SaysSame (some word) []

theorem words_nil : words [] = [] := by
  simp [words]

theorem words_cons (c : Char) (line : List Char) :
    words (c :: line) = if isWhitespace c then words line else
      (c :: (line.splitOnP isWhitespace).headD []) :: ((line.splitOnP isWhitespace).tail.filter fun word => !word.isEmpty) := by
  rw [words, List.splitOnP_cons_eq_if_modifyHead]
  split
  next => simp [words]
  next =>
    cases parts : line.splitOnP isWhitespace with
    | nil => exact absurd parts (List.splitOnP_ne_nil _ _)
    | cons head tail => simp

theorem blank_of_words {text : List Char} (none : words text = []) : ∀ c ∈ text, isWhitespace c = true := by
  induction text with
  | nil => exact List.forall_mem_nil _
  | cons c text ih =>
    rw [words_cons] at none
    split at none
    next blank => exact List.forall_mem_cons.mpr ⟨blank, ih none⟩
    next => cases none

theorem words_append_blank {c : Char} (blank : isWhitespace c = true) (line : List Char) :
    words (line ++ [c]) = words line := by
  rw [words, List.splitOnP_append_cons (p := isWhitespace) _ _ blank, List.filter_append]
  simp [words]

theorem words_trim_ne_nil {text : List Char} (some_ : trim text ≠ []) : words (trim text) ≠ [] := by
  intro none
  have blank := blank_of_words none
  rw [trim] at some_ blank
  have kept : (text.dropWhile isWhitespace).reverse.dropWhile isWhitespace ≠ [] := fun empty => some_ (by rw [empty]; rfl)
  have solid := List.head_dropWhile_not isWhitespace kept
  have member := List.mem_reverse.mpr (List.head_mem kept)
  rw [blank _ member] at solid
  cases solid

variable (line : List Char)

theorem words_dropReturn : words (dropReturn line) = words line := by
  unfold dropReturn
  split
  next ends =>
    have whole := List.dropLast_append_getLast? _ ends
    rw [← words_append_blank (c := '\r') (by decide), whole]
  next => rfl

theorem tokens_eq :
    tokens line = (words line).map fun word => String.ofList (word.map Char.toLower) := rfl

theorem reads_iff {word : List Char} {text : String} : Reads word text ↔ String.ofList (word.map Char.toLower) = text := by
  rw [Reads, ← String.toList_inj, String.toList_ofList]

theorem exists_of_isCommand {line : List Char} (isCommand : IsCommand line) :
    ∃ command, parseLine line = some command ∧ Asks (words line)[2]? command := by
  obtain ⟨mention, verb, arguments, split, mentions, merges⟩ := isCommand
  rw [parseLine, tokens_eq, split, List.map_cons, List.map_cons, reads_iff.mp mentions, reads_iff.mp merges]
  cases arguments with
  | nil => exact ⟨_, rfl, .bare⟩
  | cons word rest =>
    simp only [List.map_cons, List.head?_cons]
    split
    next reads => exact ⟨_, rfl, .cancel (reads_iff.mpr (Option.some.inj reads))⟩
    next reads => exact ⟨_, rfl, .method (reads_iff.mpr (Option.some.inj reads))⟩
    next reads => exact ⟨_, rfl, .method (reads_iff.mpr (Option.some.inj reads))⟩
    next reads => exact ⟨_, rfl, .method (reads_iff.mpr (Option.some.inj reads))⟩
    next uncancelled notMerge notSquash notRebase =>
      refine ⟨_, rfl, .unknown (fun reads => uncancelled (by rw [reads_iff.mp reads])) fun method reads => ?_⟩
      rw [reads_iff] at reads
      cases method with
      | merge => exact notMerge (by rw [reads]; rfl)
      | squash => exact notSquash (by rw [reads]; rfl)
      | rebase => exact notRebase (by rw [reads]; rfl)

theorem parseLine_eq_none {line : List Char} : parseLine line = none ↔ ¬ IsCommand line := by
  constructor
  · intro none isCommand
    obtain ⟨command, reads, -⟩ := exists_of_isCommand isCommand
    rw [none] at reads
    cases reads
  · intro prose
    rw [parseLine]
    split
    next arguments shape =>
      refine absurd ?_ prose
      rw [tokens_eq] at shape
      obtain ⟨mention, rest, split, mentions, shape⟩ := List.map_eq_cons_iff.mp shape
      obtain ⟨verb, arguments, rfl, merges, -⟩ := List.map_eq_cons_iff.mp shape
      exact ⟨mention, verb, arguments, split, reads_iff.mpr mentions, reads_iff.mpr merges⟩
    next => rfl

theorem exists_of_firstCommand {body : String} {line : List Char} (first : FirstCommand body line) :
    ∃ command, parseCommentCommand body = some command ∧ Asks (words line)[2]? command := by
  obtain ⟨before, after, split, isCommand, earlier⟩ := first
  obtain ⟨command, reads, asks⟩ := exists_of_isCommand isCommand
  exact ⟨command, List.findSome?_eq_some_iff.mpr
    ⟨before, line, after, split, reads, fun other member => parseLine_eq_none.mpr (earlier other member)⟩, asks⟩

theorem parseCommentCommand_eq_none {body : String} :
    parseCommentCommand body = none ↔ ∀ line ∈ lines body.toList, ¬ IsCommand line := by
  rw [parseCommentCommand, List.findSome?_eq_none_iff]
  exact forall₂_congr fun line _ => parseLine_eq_none

theorem exists_firstCommand {body : String} {command : CommentCommand} (parsed : parseCommentCommand body = some command) :
    ∃ line, FirstCommand body line := by
  obtain ⟨before, line, after, split, reads, earlier⟩ := List.findSome?_eq_some_iff.mp parsed
  refine ⟨line, before, after, split, ?_, fun other member => parseLine_eq_none.mp (earlier other member)⟩
  by_contra prose
  rw [parseLine_eq_none.mpr prose] at reads
  cases reads

theorem documented_parseCommentCommand (body : String) : Documented body (parseCommentCommand body) := by
  cases parsed : parseCommentCommand body with
  | none => exact parseCommentCommand_eq_none.mp parsed
  | some command =>
    obtain ⟨line, first⟩ := exists_firstCommand parsed
    obtain ⟨other, parsed', asks⟩ := exists_of_firstCommand first
    rw [parsed] at parsed'
    exact ⟨line, first, Option.some.inj parsed' ▸ asks⟩

theorem parseLine_dropReturn : parseLine (dropReturn line) = parseLine line := by
  rw [parseLine, parseLine, tokens_eq, tokens_eq, words_dropReturn]

/-- The model of the service reads the same command, from lines that keep their carriage returns. -/
theorem parseCommentCommand_eq (body : String) : parseCommentCommand body = parse body := by
  have last : ∀ part : List Char, ([part].filter fun part => !part.isEmpty).findSome? parseLine = parseLine part := by
    intro part
    cases part with
    | nil => exact (parseLine_eq_none.mpr fun ⟨_, _, _, split, _⟩ => (nomatch words_nil.symm.trans split)).symm
    | cons c part => simp
  cases parts : body.toList.splitOn '\n' using List.reverseRec with
  | nil => exact absurd parts (List.splitOn_ne_nil _ _)
  | append_singleton before part _ =>
    rw [parseCommentCommand, lines, parse, parts]
    simp only [List.dropLast_concat, List.getLast?_concat, Option.toList_some, List.findSome?_append, last,
      List.findSome?_map, Function.comp_def, parseLine_dropReturn, List.findSome?_singleton]

/-! What the parser of the other forges makes of a comment that opens with a command. -/

variable {body : String} {text : List Char}

theorem parse_of_opens (opens : Opens body text) : TextCommand.parseCommentCommand body =
    if text = [] then some (.merge none)
    else if text = "cancel".toList then some .mergeCancel
    else (words text).head?.map fun method => .merge (some (String.ofList method)) := by
  obtain ⟨rest, more, mention, verb, rfl⟩ := opens
  have unempty : trim rest ≠ [] := fun empty => by simp [empty] at verb
  rw [TextCommand.parseCommentCommand, List.isPrefixOf?_eq_some_iff_append_eq.mpr mention.symm]
  simp only [Option.map_some, Option.bind_eq_bind, Option.bind_some, if_neg unempty]
  rw [List.isPrefixOf?_eq_some_iff_append_eq.mpr verb.symm]
  simp only [Option.map_some, Option.bind_some]
  cases (words (trim more)).head? <;> rfl

theorem parse_of_not_opens (closed : ∀ text, ¬ Opens body text) : TextCommand.parseCommentCommand body = none := by
  rw [TextCommand.parseCommentCommand]
  cases mention : "@eka-ci".toList.isPrefixOf? (trim body.toList) with
  | none => rfl
  | some rest =>
    simp only [Option.map_some, Option.bind_eq_bind, Option.bind_some]
    split
    next => rfl
    next =>
      cases verb : "merge".toList.isPrefixOf? (trim rest) with
      | none => rfl
      | some more =>
        refine absurd ⟨rest, more, ?_, ?_, rfl⟩ (closed (trim more))
        · exact (List.isPrefixOf?_eq_some_iff_append_eq.mp mention).symm
        · exact (List.isPrefixOf?_eq_some_iff_append_eq.mp verb).symm

theorem isSome_of_opens (opens : Opens body text) : ∃ command, TextCommand.parseCommentCommand body = some command := by
  rw [parse_of_opens opens]
  obtain ⟨rest, more, -, -, rfl⟩ := opens
  split
  next => exact ⟨_, rfl⟩
  next unempty =>
    split
    next => exact ⟨_, rfl⟩
    next =>
      cases split : words (trim more) with
      | nil => exact absurd split (words_trim_ne_nil unempty)
      | cons word rest => exact ⟨_, rfl⟩

theorem parse_eq_default (opens : Opens body text) :
    TextCommand.parseCommentCommand body = some (.merge none) ↔ text = [] := by
  rw [parse_of_opens opens]
  split
  next empty => exact iff_of_true rfl empty
  next unempty =>
    refine iff_of_false (fun same => ?_) unempty
    split at same
    · cases same
    · cases split : (words text).head? <;> simp [split] at same

theorem parse_eq_cancel (opens : Opens body text) :
    TextCommand.parseCommentCommand body = some .mergeCancel ↔ text = "cancel".toList := by
  rw [parse_of_opens opens]
  split
  next empty => simp [empty]
  next =>
    split
    next cancels => exact iff_of_true rfl cancels
    next other =>
      refine iff_of_false (fun same => ?_) other
      cases split : (words text).head? <;> simp [split] at same

theorem asStr_ne_cancel (method : MergeMethod) : method.asStr.toList ≠ "cancel".toList := by
  cases method <;> decide

theorem parse_eq_method (opens : Opens body text) (method : MergeMethod) :
    TextCommand.parseCommentCommand body = some (.merge (some method.asStr)) ↔
      (words text).head? = some method.asStr.toList := by
  rw [parse_of_opens opens]
  split
  next empty => simp [empty, words_nil]
  next =>
    split
    next cancels =>
      have first : (words text).head? = some "cancel".toList := by rw [cancels]; decide
      rw [first]
      exact iff_of_false (fun same => nomatch same) fun same => asStr_ne_cancel method (Option.some.inj same).symm
    next =>
      rw [Option.map_eq_some_iff]
      constructor
      · rintro ⟨word, first, same⟩
        rw [first, ← String.toList_ofList (l := word), (TextCommand.merge.inj same : some _ = some _) |> Option.some.inj]
      · intro first
        exact ⟨_, first, by rw [String.ofList_toList]⟩

theorem parse_iff_saysSame {third : Option (List Char)} {command : CommentCommand} (opens : Opens body text)
    (asks : Asks third command) :
    TextCommand.parseCommentCommand body = some command.asText ↔ SaysSame third text := by
  cases asks with
  | bare =>
    refine (parse_eq_default opens).trans ⟨?_, ?_⟩
    · rintro rfl
      exact .bare
    · rintro ⟨⟩
      rfl
  | @cancel word reads =>
    refine (parse_eq_cancel opens).trans ⟨?_, fun alike => ?_⟩
    · rintro rfl
      exact .cancel reads
    · cases alike with
      | cancel _ => rfl
      | @method _ _ method reads' _ => exact absurd (reads'.symm.trans reads) (asStr_ne_cancel method)
      | unknown uncancelled _ => exact absurd reads uncancelled
  | @method word method reads =>
    refine (parse_eq_method opens method).trans ⟨.method reads, fun alike => ?_⟩
    cases alike with
    | cancel reads' => exact absurd (reads.symm.trans reads') (asStr_ne_cancel method)
    | method reads' first => rw [first, ← reads', reads]
    | unknown _ strange => exact absurd reads (strange method)
  | unknown uncancelled strange =>
    refine (parse_eq_default opens).trans ⟨?_, fun alike => ?_⟩
    · rintro rfl
      exact .unknown uncancelled strange
    · cases alike with
      | cancel reads => exact absurd reads uncancelled
      | @method _ _ method reads _ => exact absurd reads (strange method)
      | unknown _ _ => rfl

/-- The three parsers agree exactly where the comment opens with a command that its first
command line repeats, or neither opens with one nor has such a line. -/
theorem parsersAgree_iff (body : String) : ParsersAgree body ↔
    ((∀ line ∈ lines body.toList, ¬ IsCommand line) ∧ ∀ text, ¬ Opens body text) ∨
      ∃ line text, FirstCommand body line ∧ Opens body text ∧ SaysSame (words line)[2]? text := by
  have same : ParsersAgree body ↔
      TextCommand.parseCommentCommand body = (parseCommentCommand body).map asText :=
    ⟨fun agree => agree.gitea, fun same => ⟨documented_parseCommentCommand body, same, same⟩⟩
  rw [same]
  constructor
  · intro same
    by_cases opens : ∃ text, Opens body text
    · obtain ⟨text, opens⟩ := opens
      obtain ⟨command, asked⟩ := isSome_of_opens opens
      rw [asked] at same
      obtain ⟨command', parsed, rfl⟩ := Option.map_eq_some_iff.mp same.symm
      obtain ⟨line, first⟩ := exists_firstCommand parsed
      obtain ⟨other, parsed', asks⟩ := exists_of_firstCommand first
      rw [parsed, Option.some.injEq] at parsed'
      exact .inr ⟨line, text, first, opens, (parse_iff_saysSame opens (parsed' ▸ asks)).mp asked⟩
    · rw [not_exists] at opens
      rw [parse_of_not_opens opens] at same
      exact .inl ⟨parseCommentCommand_eq_none.mp (Option.map_eq_none_iff.mp same.symm), opens⟩
  · rintro (⟨prose, closed⟩ | ⟨line, text, first, opens, alike⟩)
    · rw [parseCommentCommand_eq_none.mpr prose, parse_of_not_opens closed]
      rfl
    · obtain ⟨command, parsed, asks⟩ := exists_of_firstCommand first
      rw [parsed, (parse_iff_saysSame opens asks).mpr alike]
      rfl

/-- A comment that reports a merge asks Gitea and GitLab for one. -/
theorem mergedAlready_not_parsersAgree : ¬ ParsersAgree "@eka-ci merged already" := by
  intro agree
  exact absurd agree.gitea (by decide)

end CommentCommand

end EkaCI
