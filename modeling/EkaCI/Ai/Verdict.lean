import EkaCI.Lib.ByteSlices
import EkaCI.Lib.Json
import EkaCI.Lib.Lines
import EkaCI.Scheduler.System
import Mathlib.Algebra.Group.Nat.Defs

/-! The verdict of a model on a skill, and how it is read from what the model has written: an
object, bare or in a Markdown fence. Texts are parsed to JSON values and values written as
texts by a crate, which is a parameter. -/

namespace EkaCI

open Lib
open Lib.Json (field getStr getList getOption ofOption Members)

inductive SkillDecision where
  | pass
  | fail
  deriving DecidableEq

inductive Severity where
  | critical
  | warning
  | info
  deriving DecidableEq

structure Finding where
  severity : Severity
  description : String
  file : Option String
  line : Option (Fin (2 ^ 32))

structure SkillVerdict where
  decision : SkillDecision
  reason : String
  findings : List Finding

/-- A variant without fields is its name, or an object with this one key. -/
def getVariant {A : Type} (named : String → Option A) : Json → Option A
  | .str name => named name
  | .obj [(name, .null)] => named name
  | _ => none

def getU32 : Json → Option (Fin (2 ^ 32))
  | .int value => if inside : 0 ≤ value ∧ value.toNat < 2 ^ 32 then some ⟨value.toNat, inside.2⟩ else none
  | _ => none

/-- The next element of a record that is written as an array. -/
def element {A : Type} (absent : Option A) (read : Json → Option A) : List Json → Option (A × List Json)
  | [] => absent.map (·, [])
  | item :: rest => (read item).map (·, rest)

def ended {A : Type} (value : A) : List Json → Option A
  | [] => some value
  | _ :: _ => none

namespace SkillDecision

def name : SkillDecision → String
  | pass => "pass"
  | fail => "fail"

def named (text : String) : Option SkillDecision := [pass, fail].find? fun decision => decision.name = text

theorem named_name (decision : SkillDecision) : named decision.name = some decision := by cases decision <;> decide

end SkillDecision

namespace Severity

def name : Severity → String
  | critical => "critical"
  | warning => "warning"
  | info => "info"

def named (text : String) : Option Severity := [critical, warning, info].find? fun severity => severity.name = text

theorem named_name (severity : Severity) : named severity.name = some severity := by cases severity <;> decide

end Severity

namespace Finding

/-- A file or a line that is not known is left out. -/
def toMembers (finding : Finding) : Members :=
  [("severity", .str finding.severity.name), ("description", .str finding.description)] ++
    (finding.file.map fun file => ("file", Json.str file)).toList ++
    (finding.line.map fun line => ("line", Json.int line.val)).toList

def toJson (finding : Finding) : Json := .obj finding.toMembers

def fromJson : Json → Option Finding
  | .obj members => do
    let severity ← field ["severity"] none (getVariant Severity.named) members
    let description ← field ["description"] none getStr members
    let file ← field ["file"] (some none) (getOption getStr) members
    let line ← field ["line"] (some none) (getOption getU32) members
    return { severity, description, file, line }
  | .arr items => do
    let (severity, items) ← element none (getVariant Severity.named) items
    let (description, items) ← element none getStr items
    let (file, items) ← element (some none) (getOption getStr) items
    let (line, items) ← element (some none) (getOption getU32) items
    ended { severity, description, file, line } items
  | _ => none

theorem getU32_val (line : Fin (2 ^ 32)) : getU32 (.int line.val) = some line := by
  have inside : 0 ≤ (line.val : Int) ∧ (line.val : Int).toNat < 2 ^ 32 := ⟨Int.natCast_nonneg _, line.isLt⟩
  rw [getU32, dif_pos inside]
  rfl

theorem reads : Json.Reads fromJson toJson := by
  rintro ⟨severity, description, file, line⟩
  have named : getVariant Severity.named (.str severity.name) = some severity := severity.named_name
  cases file with
  | none =>
    cases line with
    | none => simp [toJson, toMembers, fromJson, field, named, getStr]
    | some line => simp [toJson, toMembers, fromJson, field, named, getStr, getOption, getU32_val]
  | some file =>
    cases line with
    | none => simp [toJson, toMembers, fromJson, field, named, getStr, getOption]
    | some line => simp [toJson, toMembers, fromJson, field, named, getStr, getOption, getU32_val]

end Finding

namespace SkillVerdict

def toMembers (verdict : SkillVerdict) : Members :=
  [("decision", .str verdict.decision.name), ("reason", .str verdict.reason),
    ("findings", .arr (verdict.findings.map Finding.toJson))]

def toJson (verdict : SkillVerdict) : Json := .obj verdict.toMembers

def fromJson : Json → Option SkillVerdict
  | .obj members => do
    let decision ← field ["decision"] none (getVariant SkillDecision.named) members
    let reason ← field ["reason"] none getStr members
    let findings ← field ["findings"] (some []) (getList Finding.fromJson) members
    return { decision, reason, findings }
  | .arr items => do
    let (decision, items) ← element none (getVariant SkillDecision.named) items
    let (reason, items) ← element none getStr items
    let (findings, items) ← element (some []) (getList Finding.fromJson) items
    ended { decision, reason, findings } items
  | _ => none

theorem reads : Json.Reads fromJson toJson := by
  rintro ⟨decision, reason, findings⟩
  have named : getVariant SkillDecision.named (.str decision.name) = some decision := decision.named_name
  have listed : getList Finding.fromJson (.arr (findings.map Finding.toJson)) = some findings :=
    Json.reads_list Finding.reads findings
  simp [toJson, toMembers, fromJson, field, named, getStr, listed]

end SkillVerdict

inductive VerdictError where
  | noObject
  | noClosingBrace
  | json

/-- The place of the first character that is this one, in bytes. -/
def findByte (c : Char) (text : List Char) : Option Nat := (splitOnce c text).map fun (front, _) => byteLen front

def rfindByte (c : Char) (text : List Char) : Option Nat := (rsplitOnce c text).map fun (front, _) => byteLen front

def backticks : List Char := "```".toList

section Reading

variable (parse : List Char → Option Json)

/-- `serde_json::from_str`. -/
def fromStr (text : List Char) : Except VerdictError SkillVerdict :=
  match (parse text).bind SkillVerdict.fromJson with
  | some verdict => .ok verdict
  | none => .error .json

/-- `none` is the panic of a slice whose ends are the wrong way round. -/
def parseVerdict (text : List Char) : Option (Except VerdictError SkillVerdict) :=
  let trimmed := trim text
  if backticks.isPrefixOf trimmed then
    match findByte '{' trimmed with
    | none => some (.error .noObject)
    | some start =>
      match rfindByte '}' trimmed with
      | none => some (.error .noClosingBrace)
      | some stop => (slice start (stop + 1) trimmed).map (fromStr parse)
  else some (fromStr parse trimmed)

/-- The copy of one provider. -/
def anthropicParseVerdict : List Char → Option (Except VerdictError SkillVerdict) := parseVerdict parse

def openaiParseVerdict : List Char → Option (Except VerdictError SkillVerdict) := parseVerdict parse

def ReturnsAlike (text : List Char) : Prop :=
  ∃ outcome, anthropicParseVerdict parse text = some outcome ∧ openaiParseVerdict parse text = some outcome

end Reading

/-- In a fence, the last closing brace comes before the first opening one, and not right before it. -/
def BracesCross (text : List Char) : Prop :=
  backticks <+: trim text ∧ ∃ front between back, trim text = front ++ '}' :: between ++ '{' :: back ∧ between ≠ [] ∧
    '{' ∉ front ++ '}' :: between ∧ '}' ∉ between ++ '{' :: back

/-- What is written around a verdict. -/
structure VerdictFrame where
  before : List Char
  /-- The text between the backticks and the verdict, and the text behind it, if there is a fence. -/
  fence : Option (List Char × List Char)
  after : List Char
  blankBefore : ∀ c ∈ before, isWhitespace c = true
  blankAfter : ∀ c ∈ after, isWhitespace c = true
  unbraced : ∀ info trailing, fence = some (info, trailing) → ∀ c ∈ info ++ trailing, c ≠ '{' ∧ c ≠ '}'

namespace VerdictFrame

def around (frame : VerdictFrame) (text : List Char) : List Char :=
  frame.before ++ (match frame.fence with
    | none => text
    | some (info, trailing) => backticks ++ info ++ text ++ trailing) ++ frame.after

end VerdictFrame

section Trimming

variable {before : List Char} {first last : Char}

theorem trim_eq (text : List Char) : trim text = (text.dropWhile isWhitespace).rdropWhile isWhitespace := rfl

theorem rdropWhile_append_cons {front back : List Char} {c : Char} (solid : isWhitespace c = false) :
    (front ++ c :: back).rdropWhile isWhitespace = front ++ c :: back.rdropWhile isWhitespace := by
  have split : front ++ c :: back = (front ++ [c]) ++ back := by simp
  rw [List.rdropWhile, split, List.reverse_append, List.dropWhile_append]
  split
  next empty =>
    have none : back.rdropWhile isWhitespace = [] := by
      rw [List.rdropWhile, List.isEmpty_iff.mp empty]
      rfl
    rw [none, List.reverse_append, List.reverse_singleton, List.singleton_append, List.dropWhile_cons, solid]
    simp
  next => simp [List.rdropWhile]

theorem trim_append (core : List Char) (blank : ∀ c ∈ before, isWhitespace c = true) (begins : isWhitespace first = false)
    (ends : isWhitespace last = false) (rest : List Char) :
    trim (before ++ first :: core ++ last :: rest) = first :: core ++ last :: rest.rdropWhile isWhitespace := by
  rw [trim_eq, List.append_assoc, List.dropWhile_append_of_pos blank, List.cons_append, List.dropWhile_cons, begins,
    if_neg (by decide), ← List.cons_append, rdropWhile_append_cons ends]

end Trimming

section Reading

variable {parse : List Char → Option Json} {text : List Char}

theorem parseVerdict_of_fence (fence : backticks <+: trim text) {front rest opened trailing : List Char}
    (first : trim text = front ++ '{' :: rest) (noneBefore : '{' ∉ front)
    (last : trim text = opened ++ '}' :: trailing) (noneAfter : '}' ∉ trailing) :
    parseVerdict parse text = (slice (byteLen front) (byteLen opened + 1) (trim text)).map (fromStr parse) := by
  have start : findByte '{' (trim text) = some (byteLen front) := by
    rw [findByte, splitOnce_eq_some_iff.mpr ⟨first, noneBefore⟩]
    rfl
  have stop : rfindByte '}' (trim text) = some (byteLen opened) := by
    rw [rfindByte, rsplitOnce_eq_some_iff.mpr ⟨last, noneAfter⟩]
    rfl
  simp only [parseVerdict, if_pos (List.isPrefixOf_iff_prefix.mpr fence), start, stop]

theorem byteLen_closed (opened : List Char) : byteLen opened + 1 = byteLen (opened ++ ['}']) := by
  rw [byteLen_append]
  rfl

theorem slice_braces {front more trailing : List Char} (last : trim text = front ++ '{' :: more ++ '}' :: trailing) :
    slice (byteLen front) (byteLen (front ++ '{' :: more) + 1) (trim text) = some ('{' :: more ++ ['}']) := by
  have cut := slice_append front ('{' :: more ++ ['}']) trailing
  have whole : trim text = front ++ ('{' :: more ++ ['}']) ++ trailing := by
    rw [last]
    simp
  rw [whole, byteLen_closed, List.append_assoc, byteLen_append, cut]

theorem slice_touching {opened rest : List Char} (split : trim text = opened ++ '}' :: [] ++ '{' :: rest) :
    slice (byteLen (opened ++ ['}'])) (byteLen opened + 1) (trim text) = some [] := by
  have cut := slice_append (opened ++ ['}']) [] ('{' :: rest)
  rw [byteLen_nil, Nat.add_zero, List.append_nil] at cut
  rw [split, byteLen_closed, cut]

theorem slice_crossed {front between : List Char} (some : between ≠ []) :
    slice (byteLen (front ++ '}' :: between)) (byteLen front + 1) (trim text) = none := by
  cases cut : slice (byteLen (front ++ '}' :: between)) (byteLen front + 1) (trim text) with
  | none => rfl
  | some middle =>
    obtain ⟨before, after, -, start, stop⟩ := slice_eq_some_iff.mp cut
    have longer : 0 < byteLen between := Nat.lt_of_lt_of_le (List.length_pos_iff.mpr some) (length_le_byteLen between)
    have closed : byteLen (front ++ '}' :: between) = byteLen front + (1 + byteLen between) := by
      rw [byteLen_append, byteLen_cons]
      rfl
    omega

theorem bracesCross_of_panics (panics : parseVerdict parse text = none) : BracesCross text := by
  by_cases fence : backticks <+: trim text
  · cases firstAt : splitOnce '{' (trim text) with
    | none => simp [parseVerdict, findByte, firstAt, List.isPrefixOf_iff_prefix.mpr fence] at panics
    | some found =>
      cases lastAt : rsplitOnce '}' (trim text) with
      | none => simp [parseVerdict, findByte, rfindByte, firstAt, lastAt, List.isPrefixOf_iff_prefix.mpr fence] at panics
      | some closed =>
        obtain ⟨first, noneBefore⟩ := splitOnce_eq_some_iff.mp firstAt
        obtain ⟨last, noneAfter⟩ := rsplitOnce_eq_some_iff.mp lastAt
        rw [parseVerdict_of_fence fence first noneBefore last noneAfter, Option.map_eq_none_iff] at panics
        obtain ⟨front, rest⟩ := found
        obtain ⟨opened, trailing⟩ := closed
        dsimp only at first noneBefore last noneAfter panics
        rcases List.append_eq_append_iff.mp (first.symm.trans last) with ⟨more, longer, same⟩ | ⟨more, longer, same⟩
        · -- The opening brace comes first.
          obtain ⟨c, inner, rfl⟩ : ∃ c inner, more = c :: inner := by
            cases more with
            | nil => cases same
            | cons c inner => exact ⟨c, inner, rfl⟩
          have opening := (List.cons.inj same).1
          rw [← opening] at longer
          rw [longer, slice_braces (by rw [last, longer])] at panics
          cases panics
        · -- It comes after the closing one.
          obtain ⟨c, between, rfl⟩ : ∃ c between, more = c :: between := by
            cases more with
            | nil => cases same
            | cons c between => exact ⟨c, between, rfl⟩
          obtain ⟨closing, behind⟩ := List.cons.inj same
          have behind : trailing = between ++ '{' :: rest := behind
          have split : trim text = opened ++ '}' :: between ++ '{' :: rest := by rw [first, longer, ← closing]
          refine ⟨fence, opened, between, rest, split, ?_, ?_, ?_⟩
          · rintro rfl
            rw [longer, ← closing, slice_touching split] at panics
            cases panics
          · rwa [closing, ← longer]
          · rwa [← behind]
  · simp [parseVerdict, fence] at panics

theorem parseVerdict_eq_none_iff : parseVerdict parse text = none ↔ BracesCross text := by
  constructor
  · exact bracesCross_of_panics
  · rintro ⟨fence, front, between, back, split, some, noneBefore, noneAfter⟩
    have last : trim text = front ++ '}' :: (between ++ '{' :: back) := by rw [split, List.append_assoc, List.cons_append]
    rw [parseVerdict_of_fence fence split noneBefore last noneAfter, Option.map_eq_none_iff]
    exact slice_crossed some

theorem returnsAlike_iff : ReturnsAlike parse text ↔ ¬ BracesCross text := by
  rw [← @parseVerdict_eq_none_iff parse text, ← ne_eq, Option.ne_none_iff_exists']
  exact exists_congr fun outcome => and_self_iff

theorem parseVerdict_bare {before after : List Char} (blankBefore : ∀ c ∈ before, isWhitespace c = true)
    (blankAfter : ∀ c ∈ after, isWhitespace c = true) (body : List Char) :
    parseVerdict parse (before ++ ('{' :: body ++ ['}']) ++ after) = some (fromStr parse ('{' :: body ++ ['}'])) := by
  have trimmed : trim (before ++ ('{' :: body ++ ['}']) ++ after) = '{' :: body ++ ['}'] := by
    have kept := trim_append body blankBefore (show isWhitespace '{' = false by decide)
      (show isWhitespace '}' = false by decide) after
    have none : after.rdropWhile isWhitespace = [] := List.rdropWhile_eq_nil_iff.mpr blankAfter
    have whole : before ++ ('{' :: body ++ ['}']) ++ after = before ++ '{' :: body ++ '}' :: after := by simp
    rw [whole, kept, none]
  have bare : ¬ backticks.isPrefixOf ('{' :: body ++ ['}']) = true := by
    rw [List.isPrefixOf_iff_prefix]
    rintro ⟨rest, same⟩
    cases same
  simp only [parseVerdict, trimmed, if_neg bare]

theorem parseVerdict_around (frame : VerdictFrame) (body : List Char) :
    parseVerdict parse (frame.around ('{' :: body ++ ['}'])) = some (fromStr parse ('{' :: body ++ ['}'])) := by
  obtain ⟨before, fence, after, blankBefore, blankAfter, unbraced⟩ := frame
  cases fence with
  | none => exact parseVerdict_bare blankBefore blankAfter body
  | some fence =>
    obtain ⟨info, trailing⟩ := fence
    have plain := unbraced info trailing rfl
    have trimmed : trim (before ++ (backticks ++ info ++ ('{' :: body ++ ['}']) ++ trailing) ++ after) =
        backticks ++ info ++ '{' :: body ++ '}' :: (trailing ++ after).rdropWhile isWhitespace := by
      have kept := trim_append (['`', '`'] ++ info ++ '{' :: body) blankBefore
        (show isWhitespace '`' = false by decide) (show isWhitespace '}' = false by decide) (trailing ++ after)
      have front : backticks = '`' :: ['`', '`'] := rfl
      rw [front]
      simp only [List.cons_append, List.append_assoc, List.nil_append] at kept ⊢
      exact kept
    have fence : backticks <+: trim (before ++ (backticks ++ info ++ ('{' :: body ++ ['}']) ++ trailing) ++ after) := by
      rw [trimmed, List.append_assoc, List.append_assoc]
      exact List.prefix_append _ _
    have first : trim (before ++ (backticks ++ info ++ ('{' :: body ++ ['}']) ++ trailing) ++ after) =
        (backticks ++ info) ++ '{' :: (body ++ '}' :: (trailing ++ after).rdropWhile isWhitespace) := by
      rw [trimmed]
      simp
    have noneBefore : '{' ∉ backticks ++ info := by
      rw [List.mem_append, not_or]
      exact ⟨by decide, fun member => (plain _ (List.mem_append_left _ member)).1 rfl⟩
    have noneAfter : '}' ∉ (trailing ++ after).rdropWhile isWhitespace := by
      intro member
      rcases List.mem_append.mp ((List.rdropWhile_prefix _ _).subset member) with inside | blank
      · exact (plain _ (List.mem_append_right _ inside)).2 rfl
      · exact absurd (blankAfter _ blank) (by decide)
    rw [VerdictFrame.around, parseVerdict_of_fence fence first noneBefore trimmed noneAfter, slice_braces trimmed]
    rfl

end Reading

/-- What the crate does with a verdict: it writes an object in braces, and reads back what it has written. -/
structure WritesVerdict (parse : List Char → Option Json) (write : Json → List Char) (verdict : SkillVerdict) : Prop where
  braces : ∃ body, write verdict.toJson = '{' :: body ++ ['}']
  readsBack : parse (write verdict.toJson) = some verdict.toJson

/-- The two providers return and return the same, unless the braces of a fenced text are the wrong
way round, and a verdict is read back from every text around it. -/
theorem parseVerdict_exact (parse : List Char → Option Json) (write : Json → List Char) :
    (∀ text, ReturnsAlike parse text ↔ ¬ BracesCross text) ∧
      ∀ verdict, WritesVerdict parse write verdict → ∀ frame : VerdictFrame,
        anthropicParseVerdict parse (frame.around (write verdict.toJson)) = some (.ok verdict) ∧
          openaiParseVerdict parse (frame.around (write verdict.toJson)) = some (.ok verdict) := by
  refine ⟨fun text => returnsAlike_iff, fun verdict crate frame => ?_⟩
  have read : fromStr parse (write verdict.toJson) = .ok verdict := by
    rw [fromStr, crate.readsBack, Option.bind_some, SkillVerdict.reads]
  have found : parseVerdict parse (frame.around (write verdict.toJson)) = some (.ok verdict) := by
    obtain ⟨body, written⟩ := crate.braces
    rw [written] at read ⊢
    rw [parseVerdict_around, read]
  exact ⟨found, found⟩

def passed : SkillVerdict := ⟨.pass, "ok", []⟩

def passedText : List Char :=
  "\x7b\"decision\":\"pass\",\"reason\":\"ok\",\"findings\":[]\x7d".toList

def jsonFence : VerdictFrame where
  before := [' ']
  fence := some ("json\n".toList, "\n```".toList)
  after := ['\n']
  blankBefore := by
    intro c member
    rw [List.mem_singleton.mp member]
    decide
  blankAfter := by
    intro c member
    rw [List.mem_singleton.mp member]
    decide
  unbraced := by
    intro info trailing same
    cases same
    have plain : (("json\n".toList ++ "\n```".toList).all fun c => decide (c ≠ '{' ∧ c ≠ '}')) = true := by decide
    exact fun c member => of_decide_eq_true (List.all_eq_true.mp plain c member)

/-- The verdict of the tests in a fence, for a crate that reads and writes this one text. -/
theorem parseVerdict_passed :
    anthropicParseVerdict (fun text => if text = passedText then some passed.toJson else none)
        (jsonFence.around passedText) = some (.ok passed) ∧
      openaiParseVerdict (fun text => if text = passedText then some passed.toJson else none)
        (jsonFence.around passedText) = some (.ok passed) :=
  (parseVerdict_exact (fun text => if text = passedText then some passed.toJson else none) fun _ => passedText).2 passed
    ⟨⟨passedText.tail.dropLast, by decide⟩, if_pos rfl⟩ jsonFence

/-- A fence, a closing brace, a blank and an opening brace. -/
theorem not_returnsAlike_crossed : ¬ ∀ parse text, ReturnsAlike parse text := by
  intro always
  obtain ⟨outcome, returned, -⟩ := always (fun _ => none) "```\x7d \x7b".toList
  have crossed : BracesCross "```\x7d \x7b".toList :=
    ⟨by decide, backticks, [' '], [], by decide, by decide, by decide, by decide⟩
  rw [anthropicParseVerdict, parseVerdict_eq_none_iff.mpr crossed] at returned
  cases returned

end EkaCI
