import Mathlib.Data.List.Basic

/-! Parts of a text between positions in bytes. A position inside a character, or one beyond
the end, is none of the text. What is searched for among the bytes is searched for among the
characters, where all bytes of a character pass the test or none does. -/

namespace EkaCI.Lib

def byteLen : List Char → Nat
  | [] => 0
  | c :: rest => c.utf8Size + byteLen rest

def utf8Bytes (text : List Char) : List UInt8 := text.flatMap String.utf8EncodeChar

def isAsciiAlphabetic (b : UInt8) : Bool := (65 ≤ b && b ≤ 90) || (97 ≤ b && b ≤ 122)

def isAsciiAlphanumeric (b : UInt8) : Bool := isAsciiAlphabetic b || (48 ≤ b && b ≤ 57)

/-- The place of the first of the bytes that is this one. -/
def position (b : UInt8) (bytes : List UInt8) : Option Nat :=
  if b ∈ bytes then some (bytes.takeWhile (· ≠ b)).length else none

def sliceFrom : Nat → List Char → Option (List Char)
  | 0, text => some text
  | _ + 1, [] => none
  | count + 1, c :: rest => if c.utf8Size ≤ count + 1 then sliceFrom (count + 1 - c.utf8Size) rest else none

def sliceTo : Nat → List Char → Option (List Char)
  | 0, _ => some []
  | _ + 1, [] => none
  | count + 1, c :: rest =>
    if c.utf8Size ≤ count + 1 then (sliceTo (count + 1 - c.utf8Size) rest).map (c :: ·) else none

/-- The part from the one position to the other. -/
def slice (start stop : Nat) (text : List Char) : Option (List Char) := (sliceTo stop text).bind (sliceFrom start)

variable {front middle rest text : List Char} {count start stop : Nat}

@[simp] theorem byteLen_nil : byteLen [] = 0 := rfl

variable (c : Char)

@[simp] theorem byteLen_cons (rest : List Char) : byteLen (c :: rest) = c.utf8Size + byteLen rest := rfl

@[simp] theorem byteLen_append (front rest : List Char) : byteLen (front ++ rest) = byteLen front + byteLen rest := by
  induction front with
  | nil => exact (Nat.zero_add _).symm
  | cons c front ih => rw [List.cons_append, byteLen_cons, byteLen_cons, ih, Nat.add_assoc]

theorem byteLen_of_narrow (narrow : ∀ c ∈ text, c.utf8Size = 1) : byteLen text = text.length := by
  induction text with
  | nil => rfl
  | cons c rest ih =>
    rw [byteLen_cons, narrow c List.mem_cons_self, ih fun other member => narrow other (List.mem_cons_of_mem _ member),
      List.length_cons, Nat.add_comm]

theorem length_le_byteLen (text : List Char) : text.length ≤ byteLen text := by
  induction text with
  | nil => exact Nat.le_refl _
  | cons c rest ih =>
    have own := c.utf8Size_pos
    rw [byteLen_cons, List.length_cons]
    omega

@[simp] theorem sliceFrom_zero (text : List Char) : sliceFrom 0 text = some text := by cases text <;> rfl

@[simp] theorem sliceTo_zero (text : List Char) : sliceTo 0 text = some [] := by cases text <;> rfl

theorem exists_add_one (count : Nat) : ∃ less, c.utf8Size + count = less + 1 :=
  Nat.exists_eq_add_one.mpr (Nat.lt_of_lt_of_le c.utf8Size_pos (Nat.le_add_right _ _))

theorem sliceFrom_cons (count : Nat) (rest : List Char) :
    sliceFrom (c.utf8Size + count) (c :: rest) = sliceFrom count rest := by
  obtain ⟨less, same⟩ := exists_add_one c count
  rw [same, sliceFrom, ← same, if_pos (Nat.le_add_right _ _), Nat.add_sub_cancel_left]

theorem sliceTo_cons (count : Nat) (rest : List Char) :
    sliceTo (c.utf8Size + count) (c :: rest) = (sliceTo count rest).map (c :: ·) := by
  obtain ⟨less, same⟩ := exists_add_one c count
  rw [same, sliceTo, ← same, if_pos (Nat.le_add_right _ _), Nat.add_sub_cancel_left]

theorem sliceFrom_append (front rest : List Char) : sliceFrom (byteLen front) (front ++ rest) = some rest := by
  induction front with
  | nil => exact sliceFrom_zero rest
  | cons c front ih => rw [List.cons_append, byteLen_cons, sliceFrom_cons, ih]

theorem sliceTo_append (front rest : List Char) : sliceTo (byteLen front) (front ++ rest) = some front := by
  induction front with
  | nil => exact sliceTo_zero rest
  | cons c front ih =>
    rw [List.cons_append, byteLen_cons, sliceTo_cons, ih]
    rfl

theorem sliceFrom_eq_some_iff : sliceFrom count text = some rest ↔ ∃ front, text = front ++ rest ∧ byteLen front = count := by
  constructor
  · intro found
    fun_induction sliceFrom count text with
    | case1 text =>
      cases found
      exact ⟨[], rfl, rfl⟩
    | case2 => cases found
    | case3 count c others fits ih =>
      obtain ⟨front, rfl, length⟩ := ih found
      exact ⟨c :: front, rfl, by rw [byteLen_cons]; omega⟩
    | case4 => cases found
  · rintro ⟨front, rfl, rfl⟩
    exact sliceFrom_append front rest

theorem sliceTo_eq_some_iff : sliceTo count text = some front ↔ ∃ rest, text = front ++ rest ∧ byteLen front = count := by
  constructor
  · intro found
    fun_induction sliceTo count text generalizing front with
    | case1 text =>
      cases found
      exact ⟨text, rfl, rfl⟩
    | case2 => cases found
    | case3 count c others fits ih =>
      obtain ⟨inner, below, rfl⟩ := Option.map_eq_some_iff.mp found
      obtain ⟨rest, rfl, length⟩ := ih below
      exact ⟨rest, rfl, by rw [byteLen_cons]; omega⟩
    | case4 => cases found
  · rintro ⟨rest, rfl, rfl⟩
    exact sliceTo_append front rest

/-- The part between two positions is a part of the text, and the positions are those of its ends. -/
theorem slice_eq_some_iff : slice start stop text = some middle ↔
    ∃ front rest, text = front ++ middle ++ rest ∧ byteLen front = start ∧ byteLen front + byteLen middle = stop := by
  rw [slice, Option.bind_eq_some_iff]
  constructor
  · rintro ⟨_, found, cut⟩
    obtain ⟨rest, rfl, length⟩ := sliceTo_eq_some_iff.mp found
    obtain ⟨front, rfl, first⟩ := sliceFrom_eq_some_iff.mp cut
    exact ⟨front, rest, rfl, first, by rw [← length, byteLen_append]⟩
  · rintro ⟨front, rest, rfl, first, length⟩
    exact ⟨front ++ middle, sliceTo_eq_some_iff.mpr ⟨rest, rfl, by rw [byteLen_append, length]⟩,
      sliceFrom_eq_some_iff.mpr ⟨front, rfl, first⟩⟩

theorem slice_append (front middle rest : List Char) :
    slice (byteLen front) (byteLen front + byteLen middle) (front ++ middle ++ rest) = some middle :=
  slice_eq_some_iff.mpr ⟨front, rest, rfl, rfl, rfl⟩

@[simp] theorem utf8Bytes_nil : utf8Bytes [] = [] := rfl

@[simp] theorem utf8Bytes_cons (rest : List Char) :
    utf8Bytes (c :: rest) = String.utf8EncodeChar c ++ utf8Bytes rest := List.flatMap_cons

@[simp] theorem utf8Bytes_append (front rest : List Char) : utf8Bytes (front ++ rest) = utf8Bytes front ++ utf8Bytes rest :=
  List.flatMap_append

theorem length_utf8Bytes (text : List Char) : (utf8Bytes text).length = byteLen text := by
  induction text with
  | nil => rfl
  | cons c rest ih => rw [utf8Bytes_cons, List.length_append, String.length_utf8EncodeChar, ih, byteLen_cons]

theorem drop_utf8Bytes (front rest : List Char) : (utf8Bytes (front ++ rest)).drop (byteLen front) = utf8Bytes rest := by
  rw [utf8Bytes_append, ← length_utf8Bytes, List.drop_left]

theorem getElem?_utf8Bytes (front rest : List Char) :
    (utf8Bytes (front ++ rest))[byteLen front]? = (utf8Bytes rest).head? := by
  rw [← drop_utf8Bytes front rest, List.head?_drop]

theorem utf8EncodeChar_of_narrow {c : Char} (narrow : c.val.toNat < 128) :
    String.utf8EncodeChar c = [UInt8.ofNat c.val.toNat] := by
  unfold String.utf8EncodeChar
  exact if_pos (Nat.le_of_lt_succ narrow)

/-- Every byte of a character of several bytes is beyond those of the others. -/
theorem wide_of_mem_utf8EncodeChar {c : Char} (wide : 128 ≤ c.val.toNat) :
    ∀ b ∈ String.utf8EncodeChar c, 128 ≤ b.toNat := by
  unfold String.utf8EncodeChar
  dsimp only
  rw [if_neg (by omega)]
  intro b member
  split at member
  · simp only [List.mem_cons, List.not_mem_nil, or_false] at member
    obtain rfl | rfl := member
    all_goals
      rw [UInt8.toNat_ofNat']
      omega
  · split at member
    · simp only [List.mem_cons, List.not_mem_nil, or_false] at member
      obtain rfl | rfl | rfl := member
      all_goals
        rw [UInt8.toNat_ofNat']
        omega
    · simp only [List.mem_cons, List.not_mem_nil, or_false] at member
      obtain rfl | rfl | rfl | rfl := member
      all_goals
        rw [UInt8.toNat_ofNat']
        omega

theorem utf8Size_of_narrow {c : Char} (narrow : c.val.toNat < 128) : c.utf8Size = 1 := by
  rw [← String.length_utf8EncodeChar, utf8EncodeChar_of_narrow narrow]
  rfl

variable {p : UInt8 → Bool} {q : Char → Bool}

/-- A test of bytes that is one of characters: they agree below 128, and beyond it neither
tells the values apart. -/
def SameTest (p : UInt8 → Bool) (q : Char → Bool) : Prop := ∀ c, ∀ b ∈ String.utf8EncodeChar c, p b = q c

theorem sameTest_of_table (beyond : Bool) (bytes : ∀ b, 128 ≤ b.toNat → p b = beyond)
    (chars : ∀ c, 128 ≤ c.val.toNat → q c = beyond) (table : ∀ n < 128, p (UInt8.ofNat n) = q (Char.ofNat n)) :
    SameTest p q := by
  intro c b member
  by_cases narrow : c.val.toNat < 128
  · have char : Char.ofNat c.val.toNat = c := Char.ofNat_toNat c
    rw [utf8EncodeChar_of_narrow narrow, List.mem_singleton] at member
    rw [member, table _ narrow, char]
  · have wide := Nat.not_lt.mp narrow
    rw [bytes b (wide_of_mem_utf8EncodeChar wide b member), chars c wide]

theorem sameTest_of_narrow (bytes : ∀ b, p b = true → b.toNat < 128) (chars : ∀ c, q c = true → c.val.toNat < 128)
    (table : ∀ n < 128, p (UInt8.ofNat n) = q (Char.ofNat n)) : SameTest p q :=
  sameTest_of_table false (fun b wide => Bool.eq_false_iff.mpr fun passes => Nat.not_lt.mpr wide (bytes b passes))
    (fun c wide => Bool.eq_false_iff.mpr fun passes => Nat.not_lt.mpr wide (chars c passes)) table

theorem utf8Bytes_of_narrow (narrow : ∀ c ∈ text, c.val.toNat < 128) :
    utf8Bytes text = text.map fun c => UInt8.ofNat c.val.toNat := by
  induction text with
  | nil => rfl
  | cons c rest ih =>
    rw [utf8Bytes, List.flatMap_cons, utf8EncodeChar_of_narrow (narrow c List.mem_cons_self), List.map_cons,
      List.singleton_append]
    exact congrArg _ (ih fun other member => narrow other (List.mem_cons_of_mem _ member))

/-- A set of characters below 128 is the set of their bytes. -/
theorem sameTest_contains {letters : List Char} (narrow : ∀ c ∈ letters, c.val.toNat < 128) :
    SameTest (utf8Bytes letters).contains letters.contains := by
  have small : ∀ n < 128, (UInt8.ofNat n).toNat = n := fun n below => by
    rw [UInt8.toNat_ofNat']
    omega
  intro c b encoded
  rw [utf8Bytes_of_narrow narrow]
  refine Bool.eq_iff_iff.mpr ?_
  rw [List.contains_iff_mem, List.contains_iff_mem, List.mem_map]
  by_cases below : c.val.toNat < 128
  · rw [utf8EncodeChar_of_narrow below, List.mem_singleton] at encoded
    refine ⟨fun ⟨letter, member, same⟩ => ?_, fun member => ⟨c, member, encoded.symm⟩⟩
    have equal : letter.val.toNat = c.val.toNat := by
      rw [← small _ (narrow letter member), same, encoded, small _ below]
    exact Char.ext (UInt32.toNat_inj.mp equal) ▸ member
  · have wide := wide_of_mem_utf8EncodeChar (Nat.not_lt.mp below) b encoded
    refine ⟨fun ⟨letter, member, same⟩ => ?_, fun member => absurd (narrow c member) below⟩
    rw [← same, small _ (narrow letter member)] at wide
    exact absurd (narrow letter member) (Nat.not_lt.mpr wide)

theorem sameTest_ne {b : UInt8} {c : Char} (small : b.toNat < 128 ∧ c.val.toNat < 128)
    (table : ∀ n < 128, decide (UInt8.ofNat n ≠ b) = decide (Char.ofNat n ≠ c)) :
    SameTest (fun other => decide (other ≠ b)) (fun other => decide (other ≠ c)) := by
  refine sameTest_of_table true (fun other wide => decide_eq_true ?_) (fun other wide => decide_eq_true ?_) table
  · rintro rfl
    exact Nat.not_lt.mpr wide small.1
  · rintro rfl
    exact Nat.not_lt.mpr wide small.2

theorem narrow_of_isAsciiAlphanumeric {b : UInt8} (letter : isAsciiAlphanumeric b = true) : b.toNat < 128 := by
  have ends : (57 : UInt8).toNat = 57 ∧ (90 : UInt8).toNat = 90 ∧ (122 : UInt8).toNat = 122 := by decide
  simp only [isAsciiAlphanumeric, isAsciiAlphabetic, Bool.or_eq_true, Bool.and_eq_true, decide_eq_true_eq,
    UInt8.le_iff_toNat_le] at letter
  omega

theorem all_utf8Bytes (same : SameTest p q) : (utf8Bytes text).all p = text.all q := by
  induction text with
  | nil => rfl
  | cons c rest ih =>
    rw [utf8Bytes_cons, List.all_append, ih, List.all_cons]
    obtain ⟨first, others, bytes⟩ := List.exists_cons_of_ne_nil (@String.utf8EncodeChar_ne_nil c)
    have each := same c
    rw [bytes] at each ⊢
    cases passes : q c with
    | true =>
      have all : (first :: others).all p = true := List.all_eq_true.mpr fun b member => (each b member).trans passes
      rw [all]
    | false =>
      have none : p first = false := (each first List.mem_cons_self).trans passes
      rw [List.all_cons, none, Bool.false_and]

theorem takeWhile_utf8Bytes (same : SameTest p q) : (utf8Bytes text).takeWhile p = utf8Bytes (text.takeWhile q) := by
  induction text with
  | nil => rfl
  | cons c rest ih =>
    rw [utf8Bytes_cons, List.takeWhile_cons]
    cases passes : q c with
    | true =>
      rw [List.takeWhile_append_of_pos fun b member => (same c b member).trans passes, ih]
      exact (utf8Bytes_cons c _).symm
    | false =>
      obtain ⟨first, others, bytes⟩ := List.exists_cons_of_ne_nil (@String.utf8EncodeChar_ne_nil c)
      have none : p first = false := (same c first (by rw [bytes]; exact List.mem_cons_self)).trans passes
      rw [bytes, List.cons_append, List.takeWhile_cons, none]
      rfl

end EkaCI.Lib
