import EkaCI.Lib.Lines
import EkaCI.Nix.DrvIdentifier
import EkaCI.Scheduler.System
import Mathlib.Data.Finset.Image

/-! What nix writes of a dry run, and what is read of it. A section is opened by a line that is
not indented, and holds the paths of the indented lines that follow. -/

namespace EkaCI.NixUtils

open Lib

structure DryRunReport where
  willBuild : Finset (List Char) := ∅
  willFetch : Finset (List Char) := ∅
  deriving DecidableEq

inductive ReportSection where
  | build
  | fetch
  deriving DecidableEq

namespace DryRunReport

def paths (report : DryRunReport) : ReportSection → Finset (List Char)
  | .build => report.willBuild
  | .fetch => report.willFetch

def insert (report : DryRunReport) (path : List Char) : ReportSection → DryRunReport
  | .build => { report with willBuild := Insert.insert path report.willBuild }
  | .fetch => { report with willFetch := Insert.insert path report.willFetch }

/-- What has been read, and the section that is open. -/
structure ParseState where
  report : DryRunReport := {}
  current : Option ReportSection := none

def trimEnd (text : List Char) : List Char := text.rdropWhile isWhitespace

def trimStart (text : List Char) : List Char := text.dropWhile isWhitespace

/-- A line without the blanks at its end, and whether it is indented. -/
def readLine (state : ParseState) (indented : Bool) (trimmed : List Char) : ParseState :=
  let lower := (trimStart trimmed).map Char.toLower
  if indented then
    let path := trim trimmed
    if path = [] then state
    else if path.head? ≠ some '/' then state
    else
      match state.current with
      | some current => { state with report := state.report.insert path current }
      | none => state
  else if "will be built".toList <:+: lower ∨ "don't know how to build".toList <+: lower then
    { state with current := some .build }
  else if "will be fetched".toList <:+: lower then { state with current := some .fetch }
  else if trimmed ≠ [] then { state with current := none }
  else state

def parseLine (state : ParseState) (rawLine : List Char) : ParseState :=
  readLine state (rawLine.head?.any isWhitespace) (trimEnd rawLine)

def parse (stderr : List Char) : DryRunReport := ((strLines stderr).foldl parseLine {}).report

def isCachedPath (report : DryRunReport) (drvStorePath : List Char) : Bool := drvStorePath ∉ report.willBuild

end DryRunReport

@[ext] structure StorePath where
  text : List Char
  rooted : text.head? = some '/'
  plain : ∀ character ∈ text, character = '/' ∨ isValidNameChar character = true
  deriving DecidableEq

/-- Blanks within a line. -/
structure Blanks where
  text : List Char
  blank : ∀ character ∈ text, isWhitespace character = true ∧ character ≠ '\n'

/-- A line that is not indented and not empty. -/
structure Message where
  text : List Char
  oneLine : '\n' ∉ text
  unindented : ∃ first, text.head? = some first ∧ isWhitespace first = false

/-- What stands in parentheses after the phrase. -/
structure SizeNote where
  text : List Char
  oneLine : '\n' ∉ text
  apart : ¬ "will be built".toList <:+: text.map Char.toLower

inductive HeaderForm where
  | singular
  | plural (count : Option Nat)

structure Header where
  kind : ReportSection
  form : HeaderForm
  note : Option SizeNote

def ReportSection.noun : ReportSection → List Char
  | .build => "derivation".toList
  | .fetch => "path".toList

def ReportSection.phrase : ReportSection → List Char
  | .build => "will be built".toList
  | .fetch => "will be fetched".toList

def countText : Option Nat → List Char
  | none => []
  | some count => Nat.toDigits 10 count ++ [' ']

/-- What stands before the phrase. -/
def HeaderForm.lead (noun : List Char) : HeaderForm → List Char
  | .singular => "this ".toList ++ (noun ++ [' '])
  | .plural count => "these ".toList ++ (countText count ++ (noun ++ "s ".toList))

def Header.text (header : Header) : List Char :=
  header.form.lead header.kind.noun ++ header.kind.phrase ++
    ((header.note.map fun note => " (".toList ++ note.text ++ [')']).getD [] ++ [':'])

/-- A line of a section after its header. -/
inductive BodyLine where
  | entry (indent : Blanks) (indented : indent.text ≠ []) (path : StorePath)
  | blank (blanks : Blanks)

inductive Block where
  | blank (blanks : Blanks)
  | note (message : Message)
  | listing (header : Header) (body : List BodyLine)

def BodyLine.text : BodyLine → List Char
  | .entry indent _ path => indent.text ++ path.text
  | .blank blanks => blanks.text

def BodyLine.path? : BodyLine → Option StorePath
  | .entry _ _ path => some path
  | .blank _ => none

def Block.lines : Block → List (List Char)
  | .blank blanks => [blanks.text]
  | .note message => [message.text]
  | .listing header body => header.text :: body.map BodyLine.text

def Block.paths (kind : ReportSection) : Block → List StorePath
  | .listing header body => if header.kind = kind then body.filterMap BodyLine.path? else []
  | _ => []

/-- The lines of the blocks. A text that ends with a line feed has an empty line at its end. -/
def renderBlocks (blocks : List Block) : List Char := ['\n'].intercalate (blocks.flatMap Block.lines)

/-- Blocks that list these paths. -/
structure Rendering (willBuild willFetch : Finset StorePath) where
  blocks : List Block
  build : (blocks.flatMap (Block.paths .build)).toFinset = willBuild
  fetch : (blocks.flatMap (Block.paths .fetch)).toFinset = willFetch

open EkaCI.NixUtils.DryRunReport

theorem infix_append_cons {A : Type} {sub front back : List A} {separator : A} (apart : separator ∉ sub)
    (inside : sub <:+: front ++ separator :: back) : sub <:+: front ∨ sub <:+: back := by
  obtain ⟨before, after, split⟩ := inside
  rw [List.append_assoc] at split
  obtain ⟨rest, rfl, left⟩ | ⟨rest, rfl, left⟩ := List.append_eq_append_iff.mp split
  · obtain ⟨more, rfl, -⟩ | ⟨more, rfl, left⟩ := List.append_eq_append_iff.mp left
    · exact .inl ⟨before, more, by rw [List.append_assoc]⟩
    · cases more with
      | nil => exact .inl ⟨before, [], by simp⟩
      | cons item more =>
        rw [List.append_assoc] at left
        obtain ⟨rfl, -⟩ := List.cons.inj (List.append_cancel_left left)
        exact absurd (List.mem_append_right _ List.mem_cons_self) apart
  · cases rest with
    | nil =>
      cases sub with
      | nil => exact .inl (List.nil_infix)
      | cons item sub =>
        obtain ⟨rfl, -⟩ := List.cons.inj left
        exact absurd List.mem_cons_self apart
    | cons item rest =>
      obtain ⟨-, rfl⟩ := List.cons.inj left
      exact .inr ⟨rest, after, by rw [List.append_assoc]; rfl⟩

theorem isWhitespace_toNat {character : Char} (blank : isWhitespace character = true) :
    character.toNat ≤ 0x20 ∨ 0x85 ≤ character.toNat := by
  simp only [isWhitespace, Bool.or_eq_true, Bool.and_eq_true, decide_eq_true_eq, List.contains_cons, List.contains_nil,
    beq_iff_eq, Bool.or_false] at blank
  omega

theorem isValidNameChar_toNat {character : Char} (valid : isValidNameChar character = true) :
    0x21 ≤ character.toNat ∧ character.toNat ≤ 0x7a := by
  have between {low high : Char} (above : low ≤ character) (below : character ≤ high) :
      low.toNat ≤ character.toNat ∧ character.toNat ≤ high.toNat := ⟨above, below⟩
  rw [isValidNameChar, decide_eq_true_eq] at valid
  obtain ⟨low, high⟩ | ⟨low, high⟩ | ⟨low, high⟩ | sign := valid
  · exact ⟨le_trans (by decide) (between low high).1, (between low high).2⟩
  · exact ⟨le_trans (by decide) (between low high).1, le_trans (between low high).2 (by decide)⟩
  · exact ⟨le_trans (by decide) (between low high).1, le_trans (between low high).2 (by decide)⟩
  · simp only [List.mem_cons, List.not_mem_nil, or_false] at sign
    obtain rfl | rfl | rfl | rfl | rfl | rfl := sign <;> decide

variable (path : StorePath)

theorem StorePath.ne_nil : path.text ≠ [] := by
  intro empty
  have rooted := path.rooted
  rw [empty] at rooted
  cases rooted

theorem StorePath.not_blank {character : Char} (member : character ∈ path.text) : isWhitespace character = false := by
  refine Bool.eq_false_iff.mpr fun blank => ?_
  have outside := isWhitespace_toNat blank
  obtain rfl | valid := path.plain character member
  · exact absurd blank (by decide)
  · have inside := isValidNameChar_toNat valid
    omega

theorem rdropWhile_dropLast {text : List Char} {last : Char} (ends : text.getLast? = some last)
    (blank : isWhitespace last = true) : trimEnd text.dropLast = trimEnd text := by
  conv_rhs => rw [← List.dropLast_append_getLast? _ ends, trimEnd, List.rdropWhile_concat_pos _ _ _ blank]
  rfl

theorem parseLine_dropReturn (state : ParseState) (line : List Char) :
    parseLine state (if line.getLast? = some '\r' then line.dropLast else line) = parseLine state line := by
  split
  next ends =>
    have same : trimEnd line.dropLast = trimEnd line := rdropWhile_dropLast ends (by decide)
    cases line with
    | nil => rfl
    | cons first rest =>
      cases rest with
      | nil =>
        obtain rfl := Option.some.inj ends
        rfl
      | cons second rest =>
        rw [List.dropLast_cons_cons] at same ⊢
        rw [parseLine, parseLine, same]
        rfl
  next => rfl

@[simp] theorem parseLine_nil (state : ParseState) : parseLine state [] = state := by
  rfl

theorem foldl_parseLine_intercalate {lines : List (List Char)} (plain : ∀ line ∈ lines, '\n' ∉ line) (state : ParseState) :
    (strLines (['\n'].intercalate lines)).foldl parseLine state = lines.foldl parseLine state := by
  induction lines generalizing state with
  | nil => rfl
  | cons line rest ih =>
    have inside := plain line List.mem_cons_self
    cases rest with
    | nil =>
      rw [List.intercalate_singleton]
      by_cases empty : line = []
      · rw [empty]
        exact (parseLine_nil state).symm
      · have last : line.getLast? ≠ some '\n' := fun ends => inside (List.mem_of_getLast? ends)
        rw [strLines, lines_open inside empty, List.map_singleton, stripLineEnd, if_neg last]
    | cons next rest =>
      rw [List.intercalate_cons_cons, List.append_assoc, List.singleton_append,
        strLines_ended inside, List.foldl_cons, List.foldl_cons, parseLine_dropReturn,
        ih fun other member => plain other (List.mem_cons_of_mem line member)]

theorem parseLine_unindented {line : List Char} (unindented : line.head?.any isWhitespace = false) (state : ParseState) :
    (parseLine state line).report = state.report := by
  rw [parseLine, unindented, readLine]
  dsimp only
  split_ifs <;> first | rfl | contradiction

theorem parseLine_blank (blanks : Blanks) (state : ParseState) : parseLine state blanks.text = state := by
  have trimmed : trimEnd blanks.text = [] :=
    List.rdropWhile_eq_nil_iff.mpr fun character member => (blanks.blank character member).1
  rw [parseLine, trimmed]
  cases blanks.text.head?.any isWhitespace <;> rfl

theorem trimEnd_path (indent : List Char) : trimEnd (indent ++ path.text) = indent ++ path.text := by
  refine List.rdropWhile_eq_self_iff.mpr fun some => ?_
  have nonempty : path.text ≠ [] := path.ne_nil
  rw [List.getLast_append_of_ne_nil some nonempty, path.not_blank (List.getLast_mem nonempty)]
  exact Bool.false_ne_true

theorem trim_path {indent : List Char} (blank : ∀ character ∈ indent, isWhitespace character = true) :
    trim (indent ++ path.text) = path.text := by
  have start : (indent ++ path.text).dropWhile isWhitespace = path.text := by
    rw [List.dropWhile_append_of_pos blank]
    cases text : path.text with
    | nil => rfl
    | cons first rest =>
      rw [List.dropWhile_cons_of_neg]
      rw [path.not_blank (by rw [text]; exact List.mem_cons_self)]
      exact Bool.false_ne_true
  have finish := trimEnd_path path []
  rw [List.nil_append] at finish
  rw [trim, start]
  exact finish

theorem parseLine_path {indent : Blanks} (indented : indent.text ≠ []) (path : StorePath) {state : ParseState}
    {kind : ReportSection} (current : state.current = some kind) :
    parseLine state (indent.text ++ path.text) = { state with report := state.report.insert path.text kind } := by
  have first : (indent.text ++ path.text).head?.any isWhitespace = true := by
    rw [List.head?_append_of_ne_nil _ indented, List.head?_eq_some_head indented]
    exact (indent.blank _ (List.head_mem indented)).1
  rw [parseLine, first, trimEnd_path, readLine, if_pos rfl]
  dsimp only
  rw [trim_path path fun character member => (indent.blank character member).1, if_neg path.ne_nil,
    if_neg (not_not_intro path.rooted), current]

theorem Header.exists_body (header : Header) : ∃ body, header.text = 't' :: (body ++ [':']) := by
  obtain ⟨kind, form, note⟩ := header
  have lead : ∀ noun, ∃ rest, form.lead noun = 't' :: rest := by
    intro noun
    cases form with
    | singular => exact ⟨_, rfl⟩
    | plural count => exact ⟨_, rfl⟩
  obtain ⟨rest, starts⟩ := lead kind.noun
  refine ⟨rest ++ kind.phrase ++ (note.map fun note => " (".toList ++ note.text ++ [')']).getD [], ?_⟩
  rw [Header.text, starts]
  simp

theorem not_mem_map_append {letter : Char} {front back : List Char} :
    letter ∉ (front ++ back).map Char.toLower ↔ letter ∉ front.map Char.toLower ∧ letter ∉ back.map Char.toLower := by
  rw [List.map_append, List.mem_append, not_or]

theorem digit_toLower {digit : Char} (valid : digit.isDigit = true) : digit.toLower ≠ 'u' := by
  have small : digit.toNat ≤ '9'.toNat := by
    rw [Char.isDigit, Bool.and_eq_true, decide_eq_true_eq, decide_eq_true_eq] at valid
    exact valid.2
  unfold Char.toLower
  split
  next upper =>
    have large : 'A'.toNat ≤ digit.toNat := upper.1
    exact absurd (large.trans small) (by decide)
  next =>
    rintro rfl
    exact absurd small (by decide)

theorem not_mem_countText (count : Option Nat) : 'u' ∉ (countText count).map Char.toLower := by
  cases count with
  | none => exact List.not_mem_nil
  | some count =>
    rw [countText, not_mem_map_append]
    refine ⟨fun member => ?_, by decide⟩
    obtain ⟨digit, listed, same⟩ := List.mem_map.mp member
    exact digit_toLower (Nat.isDigit_of_mem_toDigits (by decide) (by decide) listed) same

theorem not_infix_of_fetch {header : Header} (fetch : header.kind = .fetch) :
    ¬ "will be built".toList <:+: header.text.map Char.toLower := by
  obtain ⟨kind, form, note⟩ := header
  subst fetch
  have letter : 'u' ∉ (form.lead (ReportSection.noun .fetch) ++ ReportSection.phrase .fetch).map Char.toLower := by
    refine not_mem_map_append.mpr ⟨?_, by decide⟩
    cases form with
    | singular => decide
    | plural count =>
      exact not_mem_map_append.mpr ⟨by decide, not_mem_map_append.mpr ⟨not_mem_countText count, by decide⟩⟩
  have absent {text : List Char} (without : 'u' ∉ text) : ¬ "will be built".toList <:+: text := fun inside =>
    without (inside.subset (by decide))
  rw [Header.text, List.map_append]
  cases note with
  | none =>
    refine absent ?_
    rw [List.mem_append, not_or]
    exact ⟨letter, show 'u' ∉ [':'].map Char.toLower by decide⟩
  | some note =>
    intro inside
    have split : (((some note).map fun note => " (".toList ++ note.text ++ [')']).getD [] ++ [':']).map Char.toLower =
        ' ' :: '(' :: (note.text.map Char.toLower ++ ')' :: [':']) := by
      have front : [' ', '('].map Char.toLower = [' ', '('] := by decide
      have back : [')', ':'].map Char.toLower = [')', ':'] := by decide
      simp
    rw [split, ← List.singleton_append, ← List.append_assoc] at inside
    obtain front | back := infix_append_cons (by decide) inside
    · refine absent ?_ front
      rw [List.mem_append, not_or]
      exact ⟨letter, by decide⟩
    · obtain noted | colon := infix_append_cons (by decide) back
      · exact note.apart noted
      · exact absent (by decide) colon

theorem parseLine_header (header : Header) (state : ParseState) :
    parseLine state header.text = { state with current := some header.kind } := by
  obtain ⟨body, text⟩ := header.exists_body
  have trimmed : trimEnd header.text = header.text := by
    rw [text, ← List.cons_append, trimEnd, List.rdropWhile_concat_neg _ _ _ (by decide)]
  have start : trimStart header.text = header.text := by
    rw [text, trimStart, List.dropWhile_cons_of_neg (by decide)]
  have unindented : header.text.head?.any isWhitespace = false := by
    rw [text]
    rfl
  have phrased : header.kind.phrase <:+: header.text.map Char.toLower := by
    have same : header.kind.phrase.map Char.toLower = header.kind.phrase := by
      cases header.kind <;> decide
    rw [Header.text, List.map_append, List.map_append, same]
    exact ⟨_, _, rfl⟩
  rw [parseLine, trimmed, unindented, readLine, start]
  dsimp only
  cases kind : header.kind with
  | build =>
    rw [kind] at phrased
    rw [if_neg Bool.false_ne_true, if_pos (.inl phrased)]
  | fetch =>
    rw [kind] at phrased
    have known : ¬ "don't know how to build".toList <+: header.text.map Char.toLower := by
      rw [text]
      rintro ⟨rest, same⟩
      exact absurd (List.cons.inj same).1 (by decide)
    rw [if_neg Bool.false_ne_true, if_neg (not_or.mpr ⟨not_infix_of_fetch kind, known⟩)]
    exact if_pos phrased

/-- Paths as they are written. -/
def listed (paths : List StorePath) : Finset (List Char) := (paths.map StorePath.text).toFinset

theorem paths_insert (report : DryRunReport) (path : List Char) (kind other : ReportSection) :
    (report.insert path kind).paths other =
      if kind = other then Insert.insert path (report.paths other) else report.paths other := by
  cases kind <;> cases other <;> rfl

theorem foldl_body (body : List BodyLine) {state : ParseState} {kind : ReportSection} (current : state.current = some kind) :
    ((body.map BodyLine.text).foldl parseLine state).current = some kind ∧
      ∀ other, ((body.map BodyLine.text).foldl parseLine state).report.paths other =
        state.report.paths other ∪ listed (if kind = other then body.filterMap BodyLine.path? else []) := by
  induction body generalizing state with
  | nil =>
    refine ⟨current, fun other => ?_⟩
    rw [List.filterMap_nil, ite_self]
    exact (Finset.union_empty _).symm
  | cons line body ih =>
    rw [List.map_cons, List.foldl_cons]
    cases line with
    | entry indent indented path =>
      rw [BodyLine.text, parseLine_path indented path current]
      obtain ⟨stays, adds⟩ := @ih { state with report := state.report.insert path.text kind } current
      refine ⟨stays, fun other => ?_⟩
      rw [adds other, paths_insert, List.filterMap_cons, BodyLine.path?]
      split_ifs
      · simp [listed, Finset.insert_union, Finset.union_insert]
      · rfl
    | blank blanks =>
      rw [BodyLine.text, parseLine_blank]
      exact ih current

theorem foldl_block (block : Block) (state : ParseState) (kind : ReportSection) :
    (block.lines.foldl parseLine state).report.paths kind = state.report.paths kind ∪ listed (block.paths kind) := by
  cases block with
  | blank blanks =>
    rw [Block.lines, List.foldl_cons, List.foldl_nil, parseLine_blank]
    exact (Finset.union_empty _).symm
  | note message =>
    have unindented : message.text.head?.any isWhitespace = false := by
      obtain ⟨first, head, solid⟩ := message.unindented
      rw [head]
      exact solid
    rw [Block.lines, List.foldl_cons, List.foldl_nil, parseLine_unindented unindented]
    exact (Finset.union_empty _).symm
  | listing header body =>
    rw [Block.lines, List.foldl_cons, parseLine_header]
    exact (foldl_body body rfl).2 kind

theorem foldl_blocks (blocks : List Block) (state : ParseState) (kind : ReportSection) :
    ((blocks.flatMap Block.lines).foldl parseLine state).report.paths kind =
      state.report.paths kind ∪ listed (blocks.flatMap (Block.paths kind)) := by
  induction blocks generalizing state with
  | nil => exact (Finset.union_empty _).symm
  | cons block rest ih =>
    rw [List.flatMap_cons, List.foldl_append, ih, foldl_block, List.flatMap_cons, Finset.union_assoc]
    simp [listed]

theorem lineFeed_not_mem_countText (count : Option Nat) : '\n' ∉ countText count := by
  cases count with
  | none => exact List.not_mem_nil
  | some count =>
    rw [countText, List.mem_append, not_or]
    refine ⟨fun member => ?_, by decide⟩
    exact absurd (Nat.isDigit_of_mem_toDigits (by decide) (by decide) member) (by decide)

theorem lineFeed_not_mem_header (header : Header) : '\n' ∉ header.text := by
  obtain ⟨kind, form, note⟩ := header
  have lead : '\n' ∉ form.lead kind.noun := by
    cases form with
    | singular => cases kind <;> decide
    | plural count =>
      exact List.not_mem_append (by decide)
        (List.not_mem_append (lineFeed_not_mem_countText count) (by cases kind <;> decide))
  have phrase : '\n' ∉ kind.phrase := by cases kind <;> decide
  refine List.not_mem_append (List.not_mem_append lead phrase) (List.not_mem_append ?_ (by decide))
  cases note with
  | none => exact List.not_mem_nil
  | some note => exact List.not_mem_append (List.not_mem_append (by decide) note.oneLine) (by decide)

theorem lineFeed_not_mem_block {block : Block} {line : List Char} (member : line ∈ block.lines) : '\n' ∉ line := by
  have blanks_plain (blanks : Blanks) : '\n' ∉ blanks.text := fun feed => (blanks.blank _ feed).2 rfl
  cases block with
  | blank blanks =>
    rw [List.mem_singleton.mp member]
    exact blanks_plain blanks
  | note message =>
    rw [List.mem_singleton.mp member]
    exact message.oneLine
  | listing header body =>
    obtain rfl | member := List.mem_cons.mp member
    · exact lineFeed_not_mem_header header
    obtain ⟨entry, -, rfl⟩ := List.mem_map.mp member
    cases entry with
    | entry indent indented path =>
      rw [BodyLine.text, List.mem_append, not_or]
      refine ⟨blanks_plain indent, fun feed => ?_⟩
      exact absurd (path.not_blank feed) (by decide)
    | blank blanks => exact blanks_plain blanks

theorem paths_parse (blocks : List Block) (kind : ReportSection) :
    (parse (renderBlocks blocks)).paths kind = listed (blocks.flatMap (Block.paths kind)) := by
  rw [parse, renderBlocks, foldl_parseLine_intercalate, foldl_blocks]
  · cases kind <;> exact Finset.empty_union _
  · intro line member
    obtain ⟨block, -, inside⟩ := List.mem_flatMap.mp member
    exact lineFeed_not_mem_block inside

/-- The report of a dry run is read back, in whatever way it is laid out. -/
theorem parse_rendering (willBuild willFetch : Finset StorePath) (rendering : Rendering willBuild willFetch) :
    parse (renderBlocks rendering.blocks) = ⟨willBuild.image StorePath.text, willFetch.image StorePath.text⟩ ∧
      ∀ drv : StorePath, (parse (renderBlocks rendering.blocks)).isCachedPath drv.text = true ↔ drv ∉ willBuild := by
  have written (paths : List StorePath) : listed paths = paths.toFinset.image StorePath.text := by
    ext text
    simp [listed]
  have build := paths_parse rendering.blocks .build
  have fetch := paths_parse rendering.blocks .fetch
  rw [written, rendering.build] at build
  rw [written, rendering.fetch] at fetch
  have report : parse (renderBlocks rendering.blocks) = ⟨willBuild.image StorePath.text, willFetch.image StorePath.text⟩ := by
    rw [← build, ← fetch]
    rfl
  refine ⟨report, fun drv => ?_⟩
  rw [report, isCachedPath, decide_eq_true_eq, not_iff_not, Finset.mem_image]
  constructor
  · rintro ⟨other, member, same⟩
    rwa [← StorePath.ext same]
  · exact fun member => ⟨drv, member, rfl⟩

/-- Two blanks and a path. -/
def StorePath.entry (path : StorePath) : BodyLine := .entry ⟨[' ', ' '], by simp; decide⟩ (by decide) path

theorem filterMap_entry (paths : List StorePath) : (paths.map StorePath.entry).filterMap BodyLine.path? = paths := by
  rw [List.filterMap_map]
  exact List.filterMap_some

theorem nonempty_rendering (willBuild willFetch : Finset StorePath) : Nonempty (Rendering willBuild willFetch) := by
  refine ⟨⟨[.listing ⟨.build, .plural none, none⟩ (willBuild.toList.map StorePath.entry),
    .listing ⟨.fetch, .plural none, none⟩ (willFetch.toList.map StorePath.entry)], ?_, ?_⟩⟩
  · simp only [List.flatMap_cons, List.flatMap_nil, Block.paths, filterMap_entry]
    simp
  · simp only [List.flatMap_cons, List.flatMap_nil, Block.paths, filterMap_entry]
    simp

example : parse "warning: x\nthis derivation will be built:\n\n  /nix/store/a-b.drv\n".toList =
    ⟨{"/nix/store/a-b.drv".toList}, ∅⟩ := by
  decide

end EkaCI.NixUtils
