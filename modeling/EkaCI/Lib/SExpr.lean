import Mathlib.Data.List.Basic

/-! Symbolic expressions with string literals, and a reader for them that goes through a text
character by character. What stands before a place only matters through the reader's state
there. -/

namespace EkaCI.Lib

inductive SExpr where
  | symbol (name : List Char)
  | text (content : List Char)
  /-- A literal in which nothing is escaped. -/
  | raw (content : List Char)
  | list (items : List SExpr)

namespace SExpr

mutual

def decEq : (first second : SExpr) → Decidable (first = second)
  | .symbol name, .symbol other => decidable_of_iff (name = other) (by simp)
  | .text content, .text other => decidable_of_iff (content = other) (by simp)
  | .raw content, .raw other => decidable_of_iff (content = other) (by simp)
  | .list items, .list others =>
    have := decEqItems items others
    decidable_of_iff (items = others) (by simp)
  | .symbol _, .text _ | .symbol _, .raw _ | .symbol _, .list _ => isFalse nofun
  | .text _, .symbol _ | .text _, .raw _ | .text _, .list _ => isFalse nofun
  | .raw _, .symbol _ | .raw _, .text _ | .raw _, .list _ => isFalse nofun
  | .list _, .symbol _ | .list _, .text _ | .list _, .raw _ => isFalse nofun

def decEqItems : (first second : List SExpr) → Decidable (first = second)
  | [], [] => isTrue rfl
  | item :: rest, other :: others =>
    have := decEq item other
    have := decEqItems rest others
    decidable_of_iff (item = other ∧ rest = others) (by simp)
  | [], _ :: _ => isFalse nofun
  | _ :: _, [] => isFalse nofun

end

instance : DecidableEq SExpr := decEq

/-- What the reader is in the middle of. -/
inductive Scan where
  | blank
  | symbol (name : List Char)
  | text (content : List Char)
  | escape (content : List Char)
  | hash
  | raw (content : List Char)
  deriving DecidableEq

/-- The expressions that have been read, and those of each list that is still open, the
innermost first. -/
structure Reader where
  done : List SExpr
  opened : List (List SExpr)
  scan : Scan
  deriving DecidableEq

namespace Reader

def start : Reader := ⟨[], [], .blank⟩

/-- An expression ends. -/
def put (item : SExpr) (reader : Reader) : Reader :=
  match reader.opened with
  | [] => ⟨reader.done ++ [item], [], .blank⟩
  | items :: rest => ⟨reader.done, (items ++ [item]) :: rest, .blank⟩

def close (reader : Reader) : Option Reader :=
  match reader.opened with
  | [] => none
  | items :: rest => some (put (.list items) ⟨reader.done, rest, .blank⟩)

/-- A character between two expressions. -/
def between (reader : Reader) (character : Char) : Option Reader :=
  if character = ' ' ∨ character = '\n' then some { reader with scan := .blank }
  else if character = '(' then some ⟨reader.done, [] :: reader.opened, .blank⟩
  else if character = ')' then reader.close
  else if character = '"' then some { reader with scan := .text [] }
  else if character = '#' then some { reader with scan := .hash }
  else some { reader with scan := .symbol [character] }

def step (reader : Reader) (character : Char) : Option Reader :=
  match reader.scan with
  | .blank => reader.between character
  | .symbol name =>
    if character = ' ' ∨ character = '\n' ∨ character = '(' ∨ character = ')' then
      (reader.put (.symbol name)).between character
    else some { reader with scan := .symbol (name ++ [character]) }
  | .text content =>
    if character = '"' then some (reader.put (.text content))
    else if character = '\\' then some { reader with scan := .escape content }
    else some { reader with scan := .text (content ++ [character]) }
  | .escape content =>
    if character = '\\' ∨ character = '"' then some { reader with scan := .text (content ++ [character]) } else none
  | .hash => if character = '"' then some { reader with scan := .raw [] } else none
  | .raw content =>
    if character = '"' then some (reader.put (.raw content))
    else some { reader with scan := .raw (content ++ [character]) }

def read (reader : Reader) (text : List Char) : Option Reader := text.foldlM step reader

theorem read_append (reader : Reader) (first second : List Char) :
    reader.read (first ++ second) = (reader.read first).bind fun middle => middle.read second :=
  List.foldlM_append

theorem read_singleton (reader : Reader) (character : Char) : reader.read [character] = reader.step character := by
  rw [read, List.foldlM_cons]
  exact bind_pure _

end Reader

/-- A literal that the reader takes apart again. -/
def quote (content : List Char) : List Char :=
  '"' ::
    content.flatMap (fun character => if character = '\\' ∨ character = '"' then ['\\', character] else [character]) ++ ['"']

namespace Reader

theorem read_literal (reader : Reader) (before content : List Char) :
    { reader with scan := .text before }.read (content.flatMap (fun character =>
        if character = '\\' ∨ character = '"' then ['\\', character] else [character]) ++ ['"']) =
      some (reader.put (.text (before ++ content))) := by
  induction content generalizing before with
  | nil => simp [read, step, put]
  | cons character rest ih =>
    rw [List.flatMap_cons, List.append_assoc, read_append]
    by_cases special : character = '\\' ∨ character = '"'
    · have escaped : { reader with scan := .text before }.read ['\\', character] =
          some { reader with scan := .text (before ++ [character]) } := by
        simp [read, step, special]
      rw [if_pos special, escaped, Option.bind_some, ih, List.append_assoc, List.singleton_append]
    · have plain : { reader with scan := .text before }.read [character] =
          some { reader with scan := .text (before ++ [character]) } := by
        rw [not_or] at special
        simp [read, step, special]
      rw [if_neg special, plain, Option.bind_some, ih, List.append_assoc, List.singleton_append]

/-- Whatever a literal contains, it is one expression. -/
theorem read_quote (reader : Reader) (blank : reader.scan = .blank) (content : List Char) :
    reader.read (quote content) = some (reader.put (.text content)) := by
  have first : reader.step '"' = some { reader with scan := .text [] } := by
    simp [step, blank, between]
  rw [quote, List.cons_append, read, List.foldlM_cons, first]
  exact read_literal reader [] content

end Reader

mutual

/-- One expression on one line. -/
def render : SExpr → List Char
  | .symbol name => name
  | .text content => quote content
  | .raw content => '#' :: '"' :: content ++ ['"']
  | .list items => '(' :: renderItems items ++ [')']

def renderItems : List SExpr → List Char
  | [] => []
  | [item] => render item
  | item :: rest => render item ++ ' ' :: renderItems rest

end

/-- What ends a symbol. -/
def IsDelimiter (character : Char) : Prop := character = ' ' ∨ character = '\n' ∨ character = '(' ∨ character = ')'

instance (character : Char) : Decidable (IsDelimiter character) := inferInstanceAs (Decidable (_ ∨ _))

/-- A text that reads as a symbol. -/
def IsName : List Char → Prop
  | [] => False
  | first :: rest => (first ≠ '"' ∧ first ≠ '#') ∧ ∀ character ∈ first :: rest, ¬IsDelimiter character

instance : (name : List Char) → Decidable (IsName name)
  | [] => inferInstanceAs (Decidable False)
  | first :: rest =>
    have := List.decidableBAll (fun character => ¬IsDelimiter character) (first :: rest)
    inferInstanceAs (Decidable (_ ∧ _))

/-- The names of the symbols are names. -/
inductive Plain : SExpr → Prop where
  | symbol {name : List Char} (valid : IsName name) : Plain (.symbol name)
  | text (content : List Char) : Plain (.text content)
  | raw {content : List Char} (inside : '"' ∉ content) : Plain (.raw content)
  | list {items : List SExpr} (plain : ∀ item ∈ items, Plain item) : Plain (.list items)

namespace Reader

variable {reader : Reader}

theorem step_blank (blank : reader.scan = .blank) (character : Char) : reader.step character = reader.between character := by
  rw [step, blank]

theorem read_name (name more : List Char) (inside : ∀ character ∈ more, ¬IsDelimiter character) :
    { reader with scan := .symbol name }.read more = some { reader with scan := .symbol (name ++ more) } := by
  induction more generalizing name with
  | nil => rw [List.append_nil]; rfl
  | cons character rest ih =>
    have taken : { reader with scan := .symbol name }.step character =
        some { reader with scan := .symbol (name ++ [character]) } :=
      if_neg (inside character List.mem_cons_self)
    rw [read, List.foldlM_cons, taken]
    refine (ih (name ++ [character]) fun other member => inside other (List.mem_cons_of_mem _ member)).trans ?_
    rw [List.append_assoc, List.singleton_append]

theorem read_raw (before content : List Char) (inside : '"' ∉ content) :
    { reader with scan := .raw before }.read (content ++ ['"']) = some (reader.put (.raw (before ++ content))) := by
  induction content generalizing before with
  | nil => simp [read, step, put]
  | cons character rest ih =>
    obtain ⟨other, inside⟩ := not_or.mp (mt List.mem_cons.mpr inside)
    have taken : { reader with scan := .raw before }.step character =
        some { reader with scan := .raw (before ++ [character]) } := if_neg (Ne.symm other)
    rw [List.cons_append, read, List.foldlM_cons, taken]
    refine (ih (before ++ [character]) inside).trans ?_
    rw [List.append_assoc, List.singleton_append]

theorem put_scan (item : SExpr) (reader : Reader) : (reader.put item).scan = .blank := by
  rw [put]
  split <;> rfl

theorem between_space (blank : reader.scan = .blank) : reader.between ' ' = some reader := by
  rw [between, if_pos (Or.inl rfl), ← blank]

end Reader

/-- What reading does to a rendered expression and the character that shows where it ends. -/
def ReadsBack (item : SExpr) : Prop :=
  ∀ (reader : Reader) (last : Char), reader.scan = .blank → IsDelimiter last →
    reader.read (item.render ++ [last]) = (reader.put item).between last

theorem readsBack_of_read {item : SExpr}
    (taken : ∀ reader : Reader, reader.scan = .blank → reader.read item.render = some (reader.put item)) :
    item.ReadsBack := by
  intro reader last blank _
  rw [Reader.read_append, taken reader blank, Option.bind_some, Reader.read_singleton,
    Reader.step_blank (Reader.put_scan item reader)]

theorem readsBack_symbol {first : Char} {rest : List Char} (valid : IsName (first :: rest)) :
    (SExpr.symbol (first :: rest)).ReadsBack := by
  obtain ⟨starts, inside⟩ := valid
  intro reader last blank delimiter
  have plain : ¬IsDelimiter first := inside first List.mem_cons_self
  simp only [IsDelimiter, not_or] at plain
  have begun : reader.step first = some { reader with scan := .symbol [first] } := by
    rw [Reader.step_blank blank, Reader.between]
    simp only [plain, starts, or_self, if_false]
  have named := @Reader.read_name reader [first] rest fun other member => inside other (List.mem_cons_of_mem _ member)
  have ends : { reader with scan := .symbol (first :: rest) }.step last =
      (reader.put (.symbol (first :: rest))).between last := if_pos delimiter
  rw [render, List.cons_append, Reader.read, List.foldlM_cons, begun]
  refine (Reader.read_append _ rest [last]).trans ?_
  rw [named, Option.bind_some, Reader.read_singleton, List.singleton_append, ends]

theorem read_renderItems {items : List SExpr} (back : ∀ item ∈ items, item.ReadsBack) (done : List SExpr)
    (before : List SExpr) (opened : List (List SExpr)) :
    (⟨done, before :: opened, .blank⟩ : Reader).read (renderItems items ++ [')']) =
      some (Reader.put (.list (before ++ items)) ⟨done, opened, .blank⟩) := by
  have closes : ∀ items : List SExpr, (⟨done, items :: opened, .blank⟩ : Reader).between ')' =
      some (Reader.put (.list items) ⟨done, opened, .blank⟩) := fun _ => rfl
  induction items generalizing before with
  | nil =>
    rw [List.append_nil]
    rfl
  | cons item rest ih =>
    have first := back item List.mem_cons_self
    cases rest with
    | nil => exact (first _ ')' rfl (Or.inr (Or.inr (Or.inr rfl)))).trans (closes (before ++ [item]))
    | cons other rest =>
      have space := first ⟨done, before :: opened, .blank⟩ ' ' rfl (Or.inl rfl)
      rw [Reader.between_space (Reader.put_scan _ _)] at space
      have later := ih (fun item member => back item (List.mem_cons_of_mem _ member)) (before ++ [item])
      have split : renderItems (item :: other :: rest) ++ [')'] =
          (item.render ++ [' ']) ++ (renderItems (other :: rest) ++ [')']) := by
        rw [renderItems, List.append_assoc, List.append_assoc, List.cons_append, List.singleton_append]
        exact nofun
      rw [split, Reader.read_append, space, Option.bind_some]
      refine later.trans ?_
      rw [List.append_assoc, List.singleton_append]

/-- Reading takes back a rendering. -/
theorem Plain.readsBack {item : SExpr} (plain : item.Plain) : item.ReadsBack := by
  induction plain with
  | @symbol name valid =>
    cases name with
    | nil => exact valid.elim
    | cons first rest => exact readsBack_symbol valid
  | text content => exact readsBack_of_read fun reader blank => Reader.read_quote reader blank content
  | @raw content inside =>
    refine readsBack_of_read fun reader blank => ?_
    have hash : reader.step '#' = some { reader with scan := .hash } := by
      rw [Reader.step_blank blank]
      rfl
    rw [render, List.cons_append, List.cons_append, Reader.read, List.foldlM_cons, hash]
    exact @Reader.read_raw reader [] content inside
  | @list items plain ih =>
    refine readsBack_of_read fun reader blank => ?_
    have opens : reader.step '(' = some ⟨reader.done, [] :: reader.opened, .blank⟩ := by
      rw [Reader.step_blank blank]
      rfl
    rw [render, List.cons_append, Reader.read, List.foldlM_cons, opens]
    refine (read_renderItems ih reader.done [] reader.opened).trans ?_
    rw [List.nil_append, ← blank]

def renderLines (items : List SExpr) : List Char := items.flatMap fun item => item.render ++ ['\n']

namespace Reader

/-- More expressions have been read before. -/
def after (before : List SExpr) (reader : Reader) : Reader := { reader with done := before ++ reader.done }

theorem after_put (before : List SExpr) (item : SExpr) (reader : Reader) :
    (reader.after before).put item = (reader.put item).after before := by
  obtain ⟨done, opened, scan⟩ := reader
  cases opened with
  | nil => simp [after, put]
  | cons items rest => rfl

theorem after_between (before : List SExpr) (reader : Reader) (character : Char) :
    (reader.after before).between character = (reader.between character).map (after before) := by
  have closes : (reader.after before).close = reader.close.map (after before) := by
    obtain ⟨done, opened, scan⟩ := reader
    cases opened with
    | nil => rfl
    | cons items rest => exact congrArg some (after_put before (.list items) ⟨done, rest, .blank⟩)
  simp only [between, closes]
  repeat' split
  all_goals rfl

theorem after_step (before : List SExpr) (reader : Reader) (character : Char) :
    (reader.after before).step character = (reader.step character).map (after before) := by
  have same : (reader.after before).scan = reader.scan := rfl
  rw [step, step, same]
  cases reader.scan with
  | blank => exact after_between before reader character
  | symbol name =>
    dsimp only
    rw [after_put, after_between]
    split <;> rfl
  | text content =>
    dsimp only
    rw [after_put]
    repeat' split
    all_goals rfl
  | escape content => dsimp only; split <;> rfl
  | hash => dsimp only; split <;> rfl
  | raw content =>
    dsimp only
    rw [after_put]
    split <;> rfl

theorem read_after (before : List SExpr) (text : List Char) (reader : Reader) :
    (reader.after before).read text = (reader.read text).map (after before) := by
  induction text generalizing reader with
  | nil => rfl
  | cons character rest ih =>
    rw [read, List.foldlM_cons, after_step, read, List.foldlM_cons]
    cases reader.step character with
    | none => rfl
    | some next => exact ih next

/-- A text that stands alone reads the same after others. -/
theorem read_done {text : List Char} {items : List SExpr} (alone : start.read text = some ⟨items, [], .blank⟩)
    (done : List SExpr) : (⟨done, [], .blank⟩ : Reader).read text = some ⟨done ++ items, [], .blank⟩ := by
  have shifted := read_after done text start
  rw [alone, after, start, List.append_nil] at shifted
  exact shifted

theorem read_renderLines {items : List SExpr} (plain : ∀ item ∈ items, item.Plain) (done : List SExpr) :
    (⟨done, [], .blank⟩ : Reader).read (renderLines items) = some ⟨done ++ items, [], .blank⟩ := by
  induction items generalizing done with
  | nil =>
    rw [List.append_nil]
    rfl
  | cons item rest ih =>
    have first := (plain item List.mem_cons_self).readsBack ⟨done, [], .blank⟩ '\n' rfl (Or.inr (Or.inl rfl))
    have later := ih (fun other member => plain other (List.mem_cons_of_mem _ member)) (done ++ [item])
    rw [renderLines, List.flatMap_cons, read_append, first]
    refine later.trans ?_
    rw [List.append_assoc, List.singleton_append]

end Reader

/-- What a text reads as, if it ends with the last expression. -/
def readAll (text : List Char) : Option (List SExpr) :=
  match Reader.start.read text with
  | some ⟨done, [], .blank⟩ => some done
  | _ => none

end SExpr

end EkaCI.Lib
