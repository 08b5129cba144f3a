import Mathlib.Data.List.DropRight

/-! Texts as lines: where they end, and a reader that takes no more than so much of one. -/

namespace EkaCI.Lib

universe u

variable {A : Type u} [DecidableEq A]

omit [DecidableEq A] in
theorem mem_intersperse {separator piece : List A} {pieces : List (List A)} (member : piece ∈ pieces) :
    piece ∈ pieces.intersperse separator := by
  induction pieces with
  | nil => cases member
  | cons first pieces ih =>
    cases pieces with
    | nil => exact member
    | cons second pieces =>
      rw [List.intersperse_cons_cons]
      obtain rfl | later := List.mem_cons.mp member
      · exact List.mem_cons_self
      · exact List.mem_cons_of_mem _ (List.mem_cons_of_mem _ (ih later))

omit [DecidableEq A] in
theorem mem_of_mem_intersperse {separator piece : List A} {pieces : List (List A)}
    (member : piece ∈ pieces.intersperse separator) : piece = separator ∨ piece ∈ pieces := by
  induction pieces with
  | nil => cases member
  | cons first pieces ih =>
    cases pieces with
    | nil => exact .inr member
    | cons second rest =>
      rw [List.intersperse_cons_cons] at member
      rcases List.mem_cons.mp member with rfl | later
      · exact .inr List.mem_cons_self
      · rcases List.mem_cons.mp later with rfl | further
        · exact .inl rfl
        · exact (ih further).imp id (List.mem_cons_of_mem _)

variable {separator : A} {text back front line piece : List A}

theorem infix_of_mem_splitOn (member : piece ∈ text.splitOn separator) : piece <:+: text := by
  have inside := List.infix_of_mem_flatten (@mem_intersperse _ [separator] _ _ member)
  rwa [← List.intercalate, List.intercalate_splitOn separator] at inside

theorem not_mem_of_mem_splitOn (member : piece ∈ text.splitOn separator) : separator ∉ piece := by
  induction text generalizing piece with
  | nil =>
    rw [List.splitOn_nil, List.mem_singleton] at member
    rw [member]
    exact List.not_mem_nil
  | cons item rest ih =>
    rw [List.splitOn_cons_eq_if_modifyHead] at member
    split at member
    next =>
      obtain rfl | later := List.mem_cons.mp member
      · exact List.not_mem_nil
      · exact ih later
    next other =>
      cases found : rest.splitOn separator with
      | nil => exact absurd found (List.splitOn_ne_nil separator rest)
      | cons first others =>
        rw [found] at member ih
        obtain rfl | later := List.mem_cons.mp member
        · refine List.not_mem_cons_of_ne_of_not_mem (fun same => other ?_) (ih List.mem_cons_self)
          rw [← same]
          exact beq_self_eq_true _
        · exact ih (List.mem_cons_of_mem _ later)

/-- The part before the last separator, and the part after it. -/
def rsplitOnce (separator : A) (text : List A) : Option (List A × List A) :=
  if separator ∈ text then
    some ((text.rdropWhile (· ≠ separator)).dropLast, text.rtakeWhile (· ≠ separator))
  else none

/-- The part before the first separator, and the part after it. -/
def splitOnce (separator : A) (text : List A) : Option (List A × List A) :=
  if separator ∈ text then
    some (text.takeWhile (· ≠ separator), (text.dropWhile (· ≠ separator)).tail)
  else none

theorem rsplitOnce_append (inside : separator ∉ back) (front : List A) :
    rsplitOnce separator (front ++ separator :: back) = some (front, back) := by
  have other : ∀ item ∈ back.reverse, decide (item ≠ separator) = true := by
    intro item member
    refine decide_eq_true fun same => inside ?_
    rw [← same]
    exact List.mem_reverse.mp member
  have before : (front ++ separator :: back).rdropWhile (· ≠ separator) = front ++ [separator] := by
    rw [List.rdropWhile, List.reverse_append, List.reverse_cons, List.append_assoc, List.dropWhile_append_of_pos other]
    simp
  have after : (front ++ separator :: back).rtakeWhile (· ≠ separator) = back := by
    rw [List.rtakeWhile, List.reverse_append, List.reverse_cons, List.append_assoc, List.takeWhile_append_of_pos other]
    simp
  rw [rsplitOnce, if_pos (List.mem_append_right _ List.mem_cons_self), before, after, List.dropLast_concat]

theorem splitOnce_append (inside : separator ∉ front) (back : List A) :
    splitOnce separator (front ++ separator :: back) = some (front, back) := by
  have other : ∀ item ∈ front, decide (item ≠ separator) = true := by
    intro item member
    refine decide_eq_true fun same => inside ?_
    rwa [← same]
  rw [splitOnce, if_pos (List.mem_append_right _ List.mem_cons_self), List.takeWhile_append_of_pos other,
    List.dropWhile_append_of_pos other]
  simp

theorem splitOnce_eq_some_iff :
    splitOnce separator text = some (front, back) ↔ text = front ++ separator :: back ∧ separator ∉ front := by
  constructor
  · intro found
    by_cases inside : separator ∈ text
    · obtain ⟨before, after, rfl, outside⟩ := List.eq_append_cons_of_mem inside
      rw [splitOnce_append outside] at found
      cases found
      exact ⟨rfl, outside⟩
    · rw [splitOnce, if_neg inside] at found
      cases found
  · rintro ⟨rfl, outside⟩
    exact splitOnce_append outside back

theorem rsplitOnce_eq_some_iff :
    rsplitOnce separator text = some (front, back) ↔ text = front ++ separator :: back ∧ separator ∉ back := by
  constructor
  · intro found
    by_cases inside : separator ∈ text
    · obtain ⟨after, before, split, outside⟩ := List.eq_append_cons_of_mem (List.mem_reverse.mpr inside)
      have whole : text = before.reverse ++ separator :: after.reverse := by
        rw [← text.reverse_reverse, split]
        simp
      rw [whole, rsplitOnce_append (fun member => outside (List.mem_reverse.mp member))] at found
      cases found
      exact ⟨whole, fun member => outside (List.mem_reverse.mp member)⟩
    · rw [rsplitOnce, if_neg inside] at found
      cases found
  · rintro ⟨rfl, outside⟩
    exact rsplitOnce_append outside front

variable (newline : A)

/-- The lines of a text, each with its newline, which only the last one can lack. -/
def lines : List A → List (List A)
  | [] => []
  | item :: rest =>
    if item = newline then [item] :: lines rest
    else
      match lines rest with
      | [] => [[item]]
      | line :: others => (item :: line) :: others

/-- A text at whose end a line ends. -/
def Whole (text : List A) : Prop := text = [] ∨ ∃ body, text = body ++ [newline]

/-- The lines of a text that have ended. -/
def complete (text : List A) : List A := text.rdropWhile (· ≠ newline)

/-- What a line is without its newline. -/
def content (line : List A) : List A := if line.getLast? = some newline then line.dropLast else line

/-- What is read up to a newline, or up to a limit, and what is left. -/
def readUntil : Nat → List A → List A × List A
  | 0, text => ([], text)
  | _ + 1, [] => ([], [])
  | limit + 1, item :: rest =>
    if item = newline then ([item], rest) else (readUntil limit rest).map (item :: ·) id

variable {newline}

theorem lines_ne_nil (some : text ≠ []) : lines newline text ≠ [] := by
  cases text with
  | nil => exact absurd rfl some
  | cons item rest =>
    rw [lines]
    split
    · exact List.cons_ne_nil _ _
    · cases lines newline rest <;> exact List.cons_ne_nil _ _

theorem lines_ended {body : List A} (inside : newline ∉ body) (rest : List A) :
    lines newline (body ++ newline :: rest) = (body ++ [newline]) :: lines newline rest := by
  induction body with
  | nil => simp [lines]
  | cons item body ih =>
    rw [List.mem_cons, not_or] at inside
    rw [List.cons_append, lines, if_neg (Ne.symm inside.1), ih inside.2]
    rfl

theorem lines_open (inside : newline ∉ text) (some : text ≠ []) : lines newline text = [text] := by
  induction text with
  | nil => exact absurd rfl some
  | cons item rest ih =>
    rw [List.mem_cons, not_or] at inside
    rw [lines, if_neg (Ne.symm inside.1)]
    cases rest with
    | nil => rfl
    | cons next rest => rw [ih inside.2 (List.cons_ne_nil _ _)]

omit [DecidableEq A] in
theorem Whole.append {first second : List A} (whole : Whole newline first) (whole' : Whole newline second) :
    Whole newline (first ++ second) := by
  obtain rfl | ⟨body, rfl⟩ := whole'
  · rwa [List.append_nil]
  · exact .inr ⟨first ++ body, (List.append_assoc _ _ _).symm⟩

omit [DecidableEq A] in
theorem Whole.of_cons {item : A} (whole : Whole newline (item :: front)) :
    (front = [] ∧ item = newline) ∨ (front ≠ [] ∧ Whole newline front) := by
  obtain none | ⟨body, same⟩ := whole
  · cases none
  · cases body with
    | nil =>
      obtain ⟨rfl, rfl⟩ := List.cons.inj same
      exact .inl ⟨rfl, rfl⟩
    | cons _ body =>
      obtain ⟨-, rfl⟩ := List.cons.inj same
      exact .inr ⟨by simp, .inr ⟨body, rfl⟩⟩

/-- At the end of a line a text falls into its lines before and after. -/
theorem lines_append (whole : Whole newline front) (rest : List A) :
    lines newline (front ++ rest) = lines newline front ++ lines newline rest := by
  induction front with
  | nil => rfl
  | cons item front ih =>
    rw [List.cons_append, lines, lines]
    obtain ⟨rfl, rfl⟩ | ⟨some, left⟩ := whole.of_cons
    · rw [if_pos rfl, if_pos rfl]
      rfl
    · rw [ih left]
      by_cases ends : item = newline
      · rw [if_pos ends, if_pos ends, List.cons_append]
      · rw [if_neg ends, if_neg ends]
        cases here : lines newline front with
        | nil => exact absurd here (lines_ne_nil some)
        | cons line others => rfl

/-- What is read of a line is the beginning of the first one. -/
theorem lines_start {start : List A} (inside : newline ∉ start) (some : start ≠ []) (rest : List A) :
    ∃ line others, lines newline (start ++ rest) = (start ++ line) :: others := by
  induction start with
  | nil => exact absurd rfl some
  | cons item start ih =>
    rw [List.mem_cons, not_or] at inside
    rw [List.cons_append, lines, if_neg (Ne.symm inside.1)]
    by_cases empty : start = []
    · rw [empty, List.nil_append]
      cases lines newline rest with
      | nil => exact ⟨[], [], rfl⟩
      | cons line others => exact ⟨line, others, rfl⟩
    · obtain ⟨line, others, begins⟩ := ih inside.2 empty
      rw [begins]
      exact ⟨line, others, rfl⟩

theorem complete_append {tail : List A} (whole : Whole newline front) (inside : newline ∉ tail) :
    complete newline (front ++ tail) = front := by
  induction tail using List.reverseRecOn with
  | nil =>
    rw [List.append_nil, complete, List.rdropWhile_eq_self_iff]
    intro some
    obtain none | ⟨body, rfl⟩ := whole
    · exact absurd none some
    · simp
  | append_singleton tail last ih =>
    rw [List.mem_append, not_or, List.mem_singleton] at inside
    rw [← List.append_assoc, complete, List.rdropWhile_concat, if_pos (decide_eq_true (Ne.symm inside.2))]
    exact ih inside.1

/-- A text is the lines that have ended and the beginning of one more. -/
theorem exists_complete (text : List A) :
    ∃ tail, text = complete newline text ++ tail ∧ Whole newline (complete newline text) ∧ newline ∉ tail := by
  refine ⟨text.rtakeWhile (· ≠ newline), List.rdropWhile_append_rtakeWhile.symm, ?_, fun member => ?_⟩
  · by_cases none : complete newline text = []
    · exact .inl none
    · have last := List.rdropWhile_last_not (fun item => decide (item ≠ newline)) text none
      rw [decide_eq_true_eq, not_not] at last
      refine .inr ⟨(complete newline text).dropLast, ?_⟩
      have same : (complete newline text).getLast none = newline := last
      conv_lhs => rw [← List.dropLast_append_getLast none, same]
  · have other := List.mem_rtakeWhile_imp member
    exact absurd rfl (of_decide_eq_true other)

theorem complete_append_whole (whole : Whole newline front) (rest : List A) :
    complete newline (front ++ rest) = front ++ complete newline rest := by
  obtain ⟨tail, split, whole', inside⟩ := @exists_complete _ _ newline rest
  conv_lhs => rw [split, ← List.append_assoc]
  exact complete_append (whole.append whole') inside

omit [DecidableEq A] in
/-- No line ends within a line. -/
theorem Whole.prefix_of_lt {rest start : List A} (whole : Whole newline start)
    (starts : start <+: front ++ (line ++ rest)) (inside : newline ∉ line.dropLast)
    (short : start.length < (front ++ line).length) : start <+: front := by
  obtain within | ⟨part, rfl⟩ := List.prefix_or_prefix_of_prefix starts (List.prefix_append front _)
  · exact within
  · have inner : part <+: line.dropLast := by
      rw [List.dropLast_eq_take, List.prefix_take_iff]
      simp only [List.length_append] at short
      refine ⟨List.prefix_of_prefix_length_le ((List.prefix_append_right_inj front).mp starts) (List.prefix_append _ _) ?_, ?_⟩ <;>
        omega
    by_cases empty : part = []
    · simp [empty]
    · obtain none | ⟨body, same⟩ := whole
      · exact absurd (List.append_eq_nil_iff.mp none).2 empty
      · have last := congrArg List.getLast? same
        rw [List.getLast?_append_of_ne_nil _ empty, List.getLast?_concat] at last
        exact absurd (inner.subset (List.mem_of_getLast? last)) inside

theorem length_le_of_mem_lines (member : line ∈ lines newline text) : line.length ≤ text.length := by
  induction text generalizing line with
  | nil => cases member
  | cons item rest ih =>
    rw [lines] at member
    split at member
    · obtain rfl | member := List.mem_cons.mp member
      · exact Nat.succ_le_succ (Nat.zero_le _)
      · exact (ih member).trans (Nat.le_succ _)
    · cases here : lines newline rest with
      | nil =>
        rw [here, List.mem_singleton] at member
        rw [member]
        exact Nat.succ_le_succ (Nat.zero_le _)
      | cons first others =>
        rw [here] at member ih
        obtain rfl | member := List.mem_cons.mp member
        · exact Nat.succ_le_succ (ih List.mem_cons_self)
        · exact (ih (List.mem_cons_of_mem _ member)).trans (Nat.le_succ _)

@[simp] theorem content_ended (body : List A) : content newline (body ++ [newline]) = body := by simp [content]

theorem content_open (inside : newline ∉ line) : content newline line = line := by
  rw [content, if_neg]
  intro last
  exact inside (List.mem_of_getLast? last)

/-- A line begins and is cut off, or it ends, or the text ends. -/
theorem readUntil_cases (limit : Nat) (text : List A) :
    (∃ body, newline ∉ body ∧ body.length < limit ∧ (readUntil newline limit text).1 = body ++ [newline] ∧
      text = body ++ newline :: (readUntil newline limit text).2) ∨
    (newline ∉ (readUntil newline limit text).1 ∧
      text = (readUntil newline limit text).1 ++ (readUntil newline limit text).2 ∧
      ((readUntil newline limit text).1.length = limit ∨
        (readUntil newline limit text).1.length < limit ∧ (readUntil newline limit text).2 = [])) := by
  induction limit generalizing text with
  | zero => exact .inr ⟨List.not_mem_nil, rfl, .inl rfl⟩
  | succ limit ih =>
    cases text with
    | nil => exact .inr ⟨List.not_mem_nil, rfl, .inr ⟨Nat.succ_pos _, rfl⟩⟩
    | cons item rest =>
      rw [readUntil]
      split
      next ends => exact .inl ⟨[], List.not_mem_nil, Nat.succ_pos _, by rw [ends]; rfl, by rw [ends]; rfl⟩
      next other =>
        rw [Prod.map_fst, Prod.map_snd, id_eq]
        obtain ⟨body, inside, short, read, split⟩ | ⟨inside, split, stopped⟩ := ih rest
        · refine .inl ⟨item :: body, List.not_mem_cons_of_ne_of_not_mem (Ne.symm other) inside, Nat.succ_lt_succ short, ?_, ?_⟩
          · rw [read, List.cons_append]
          · rw [List.cons_append, ← split]
        · refine .inr ⟨List.not_mem_cons_of_ne_of_not_mem (Ne.symm other) inside, ?_, ?_⟩
          · rw [List.cons_append, ← split]
          · simpa using stopped

/-- A line without its line feed, and without a carriage return before that. -/
def stripLineEnd (line : List Char) : List Char :=
  if line.getLast? = some '\n' then
    if line.dropLast.getLast? = some '\r' then line.dropLast.dropLast else line.dropLast
  else line

def strLines (text : List Char) : List (List Char) := (lines '\n' text).map stripLineEnd

theorem strLines_ended {body : List Char} (inside : '\n' ∉ body) (rest : List Char) :
    strLines (body ++ '\n' :: rest) =
      (if body.getLast? = some '\r' then body.dropLast else body) :: strLines rest := by
  rw [strLines, lines_ended inside, List.map_cons, stripLineEnd, List.getLast?_concat, if_pos rfl, List.dropLast_concat]
  rfl

/-- Texts that end each with a line feed are read line by line. -/
theorem strLines_flatMap {items : List (List Char)}
    (plain : ∀ item ∈ items, '\n' ∉ item ∧ item.getLast? ≠ some '\r') :
    strLines (items.flatMap (· ++ ['\n'])) = items := by
  induction items with
  | nil => rfl
  | cons item rest ih =>
    obtain ⟨inside, last⟩ := plain item List.mem_cons_self
    rw [List.flatMap_cons, List.append_assoc, List.singleton_append, strLines_ended inside, if_neg last,
      ih fun other member => plain other (List.mem_cons_of_mem item member)]

end EkaCI.Lib
