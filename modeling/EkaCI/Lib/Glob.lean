import Mathlib.Data.List.Basic

/-! Patterns in which one letter, the star, stands for any text, and every other letter
for itself. -/

namespace EkaCI.Lib

universe u

variable {A : Type u} {star : A}

inductive Glob (star : A) : List A → List A → Prop where
  | nil : Glob star [] []
  | skip {pattern rest : List A} (skipped : List A) (matched : Glob star pattern rest) :
      Glob star (star :: pattern) (skipped ++ rest)
  | letter {letter : A} {pattern rest : List A} (plain : letter ≠ star) (matched : Glob star pattern rest) :
      Glob star (letter :: pattern) (letter :: rest)

namespace Glob

theorem nil_iff {value : List A} : Glob star [] value ↔ value = [] := by
  constructor
  · intro matched
    cases matched
    rfl
  · rintro rfl
    exact nil

theorem star_iff {pattern value : List A} : Glob star (star :: pattern) value ↔
    ∃ skipped rest, value = skipped ++ rest ∧ Glob star pattern rest := by
  constructor
  · intro matched
    cases matched with
    | skip skipped matched => exact ⟨skipped, _, rfl, matched⟩
    | letter plain matched => exact absurd rfl plain
  · rintro ⟨skipped, rest, rfl, matched⟩
    exact skip skipped matched

theorem letter_iff {letter : A} {pattern value : List A} (plain : letter ≠ star) :
    Glob star (letter :: pattern) value ↔ ∃ rest, value = letter :: rest ∧ Glob star pattern rest := by
  constructor
  · intro matched
    cases matched with
    | skip skipped matched => exact absurd rfl plain
    | letter plain matched => exact ⟨_, rfl, matched⟩
  · rintro ⟨rest, rfl, matched⟩
    exact Glob.letter plain matched

theorem lone (value : List A) : Glob star [star] value := by
  rw [← List.append_nil value]
  exact skip value nil

/-- What has no star at its front is found at the front. -/
theorem plain_append {front pattern value : List A} (plain : star ∉ front) :
    Glob star (front ++ pattern) value ↔ ∃ rest, value = front ++ rest ∧ Glob star pattern rest := by
  induction front generalizing value with
  | nil => simp
  | cons letter front ih =>
    rw [List.mem_cons, not_or] at plain
    rw [List.cons_append, letter_iff (Ne.symm plain.1)]
    constructor
    · rintro ⟨_, rfl, matched⟩
      obtain ⟨rest, rfl, back⟩ := (ih plain.2).mp matched
      exact ⟨rest, rfl, back⟩
    · rintro ⟨rest, rfl, matched⟩
      exact ⟨front ++ rest, rfl, (ih plain.2).mpr ⟨rest, rfl, matched⟩⟩

/-- Without a star a pattern stands for itself alone. -/
theorem plain_iff {pattern value : List A} (plain : star ∉ pattern) : Glob star pattern value ↔ value = pattern := by
  have whole := @plain_append _ star pattern [] value plain
  rw [List.append_nil] at whole
  simpa [nil_iff] using whole

/-- A single star at the end. -/
theorem prefix_iff {front value : List A} (plain : star ∉ front) :
    Glob star (front ++ [star]) value ↔ front <+: value := by
  rw [plain_append plain]
  constructor
  · rintro ⟨rest, rfl, -⟩
    exact List.prefix_append front rest
  · rintro ⟨rest, rfl⟩
    exact ⟨rest, rfl, lone rest⟩

/-- A single star at the front. -/
theorem suffix_iff {back value : List A} (plain : star ∉ back) :
    Glob star (star :: back) value ↔ back <:+ value := by
  rw [star_iff]
  constructor
  · rintro ⟨skipped, rest, rfl, matched⟩
    rw [(plain_iff plain).mp matched]
    exact List.suffix_append skipped back
  · rintro ⟨skipped, rfl⟩
    exact ⟨skipped, back, rfl, (plain_iff plain).mpr rfl⟩

/-- Pieces that stand in a text in their order, the first at its beginning and the last at its
end. -/
inductive InOrder : List (List A) → List A → Prop where
  | last (piece : List A) : InOrder [piece] piece
  | next (piece skipped : List A) {pieces : List (List A)} {rest : List A} (later : InOrder pieces rest) :
      InOrder (piece :: pieces) (piece ++ (skipped ++ rest))

section Pieces

variable {piece : List A} {pieces : List (List A)} {value : List A}

theorem inOrder_singleton : InOrder [piece] value ↔ value = piece := by
  constructor
  · intro order
    cases order with
    | last => rfl
    | next _ _ later => cases later
  · rintro rfl
    exact .last _

theorem inOrder_cons (more : pieces ≠ []) : InOrder (piece :: pieces) value ↔
    ∃ skipped rest, value = piece ++ (skipped ++ rest) ∧ InOrder pieces rest := by
  constructor
  · intro order
    cases order with
    | last => exact absurd rfl more
    | next _ skipped later => exact ⟨skipped, _, rfl, later⟩
  · rintro ⟨skipped, rest, rfl, later⟩
    exact .next piece skipped later

/-- A letter before the first piece is one more letter of it. -/
theorem inOrder_cons_letter {letter : A} : InOrder ((letter :: piece) :: pieces) value ↔
    ∃ rest, value = letter :: rest ∧ InOrder (piece :: pieces) rest := by
  by_cases more : pieces = []
  · simp [more, inOrder_singleton]
  · simp only [inOrder_cons more, List.cons_append]
    constructor
    · rintro ⟨skipped, rest, rfl, later⟩
      exact ⟨_, rfl, skipped, rest, rfl, later⟩
    · rintro ⟨_, rfl, skipped, rest, rfl, later⟩
      exact ⟨skipped, rest, rfl, later⟩

/-- A pattern matches where what stands between its stars is found in order. -/
theorem iff_inOrder [DecidableEq A] {pattern : List A} : Glob star pattern value ↔ InOrder (pattern.splitOn star) value := by
  induction pattern generalizing value with
  | nil => rw [nil_iff, List.splitOn_nil, inOrder_singleton]
  | cons letter pattern ih =>
    rw [List.splitOn_cons_eq_if_modifyHead]
    by_cases same : letter = star
    · rw [if_pos (beq_iff_eq.mpr same), same, star_iff, inOrder_cons (List.splitOn_ne_nil star pattern)]
      simp only [List.nil_append, ih]
    · rw [if_neg (fun alike => same (beq_iff_eq.mp alike)), letter_iff same]
      obtain ⟨piece, pieces, split⟩ := List.exists_cons_of_ne_nil (List.splitOn_ne_nil star pattern)
      rw [split, List.modifyHead_cons, inOrder_cons_letter]
      simp only [ih, split]

end Pieces

/-- Every pattern matches itself, read as a text. -/
theorem self (pattern : List A) : Glob star pattern pattern := by
  induction pattern with
  | nil => exact nil
  | cons letter pattern ih =>
    by_cases same : letter = star
    · rw [same]
      exact skip [star] ih
    · exact Glob.letter same ih

end Glob

end EkaCI.Lib
