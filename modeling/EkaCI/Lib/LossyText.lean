import EkaCI.Lib.ByteSlices
import Mathlib.Algebra.Group.Nat.Defs
import Mathlib.Data.List.Infix
import Mathlib.Data.List.TakeWhile

/-! Bytes read as a text, with a mark in the place of what is none. A phrase of plain letters is
in the text where it is in the bytes, whatever stands around it. -/

namespace EkaCI.Lib

def replacementCharacter : Char := Char.ofNat 0xFFFD

/-- How many bytes a character has by its first one; `0` for what begins none. -/
def utf8CharWidth (b : UInt8) : Nat :=
  if b < 0x80 then 1
  else if 0xC2 ≤ b ∧ b ≤ 0xDF then 2
  else if 0xE0 ≤ b ∧ b ≤ 0xEF then 3
  else if 0xF0 ≤ b ∧ b ≤ 0xF4 then 4
  else 0

def isContinuation (b : UInt8) : Bool := 0x80 ≤ b && b ≤ 0xBF

/-- The second byte of a character: some characters have shorter encodings, and some numbers are none. -/
def fitsSecond (first second : UInt8) : Bool :=
  isContinuation second && (first ≠ 0xE0 || 0xA0 ≤ second) && (first ≠ 0xED || second ≤ 0x9F) &&
    (first ≠ 0xF0 || 0x90 ≤ second) && (first ≠ 0xF4 || second ≤ 0x8F)

/-- The bytes behind the first one that can belong to its character. -/
def following (first : UInt8) : List UInt8 → List UInt8
  | [] => []
  | second :: rest =>
    if 2 ≤ utf8CharWidth first ∧ fitsSecond first second = true then
      second :: (rest.take (utf8CharWidth first - 2)).takeWhile isContinuation
    else []

/-- The bits of the first byte, and six of each of the others. -/
def codePoint (first : UInt8) (others : List UInt8) : Nat :=
  others.foldl (fun code b => code * 64 + b.toNat % 64) (first.toNat % 2 ^ (7 - utf8CharWidth first))

/-- The character with these bytes. -/
def decoded (first : UInt8) (others : List UInt8) : Char :=
  if first < 0x80 then Char.ofNat first.toNat
  else
    let character := Char.ofNat (codePoint first others)
    if String.utf8EncodeChar character = first :: others then character else replacementCharacter

/-- The text behind so many bytes that belong to a character before. -/
def lossyFrom : Nat → List UInt8 → List Char
  | _, [] => []
  | skip + 1, _ :: rest => lossyFrom skip rest
  | 0, b :: rest => decoded b (following b rest) :: lossyFrom (following b rest).length rest

def fromUtf8Lossy (bytes : List UInt8) : List Char := lossyFrom 0 bytes

def toAsciiLowercase (b : UInt8) : UInt8 := if 65 ≤ b ∧ b ≤ 90 then b + 32 else b

variable {first b : UInt8} {rest bytes : List UInt8}

theorem starts_following (first : UInt8) (rest : List UInt8) : following first rest <+: rest := by
  cases rest with
  | nil => exact List.nil_prefix
  | cons second rest =>
    rw [following]
    split
    · exact List.cons_prefix_cons.mpr ⟨rfl, (List.takeWhile_prefix _).trans (List.take_prefix _ _)⟩
    · exact List.nil_prefix

theorem wide_of_isContinuation (continues : isContinuation b = true) : 128 ≤ b.toNat := by
  rw [isContinuation, Bool.and_eq_true, decide_eq_true_eq, decide_eq_true_eq, UInt8.le_iff_toNat_le] at continues
  exact continues.1

theorem wide_of_mem_following (member : b ∈ following first rest) : 128 ≤ b.toNat := by
  cases rest with
  | nil => cases member
  | cons second rest =>
    rw [following] at member
    split at member
    next fits =>
      rcases List.mem_cons.mp member with rfl | later
      · have second := fits.2
        simp only [fitsSecond, Bool.and_eq_true] at second
        exact wide_of_isContinuation second.1.1.1.1
      · exact wide_of_isContinuation (List.mem_takeWhile_imp later)
    next => cases member

theorem following_of_narrow (narrow : first.toNat < 128) (rest : List UInt8) : following first rest = [] := by
  have single : utf8CharWidth first = 1 := if_pos (UInt8.lt_iff_toNat_lt.mpr narrow)
  cases rest with
  | nil => rfl
  | cons second rest =>
    rw [following, single]
    exact if_neg fun fits => absurd fits.1 (by decide)

theorem decoded_of_narrow (narrow : first.toNat < 128) (others : List UInt8) :
    decoded first others = Char.ofNat first.toNat := if_pos (UInt8.lt_iff_toNat_lt.mpr narrow)

/-- What begins with a byte of no plain letter is none. -/
theorem wide_decoded (wide : 128 ≤ first.toNat) (others : List UInt8) : 128 ≤ (decoded first others).val.toNat := by
  have large : ¬ first < 0x80 := fun small => Nat.not_lt.mpr wide (UInt8.lt_iff_toNat_lt.mp small)
  rw [decoded, if_neg large]
  dsimp only
  split
  next encoded =>
    by_contra narrow
    rw [utf8EncodeChar_of_narrow (Nat.not_le.mp narrow)] at encoded
    have same := (List.cons.inj encoded).1
    rw [← same, UInt8.toNat_ofNat'] at wide
    omega
  next => decide

theorem toLower_of_wide {c : Char} (wide : 128 ≤ c.val.toNat) : c.toLower = c := by
  have upper : 'Z'.val.toNat < 128 := by decide
  unfold Char.toLower
  refine dif_neg fun between => ?_
  have below := UInt32.le_iff_toNat_le.mp between.2
  omega

theorem toAsciiLowercase_of_wide (wide : 128 ≤ b.toNat) : toAsciiLowercase b = b := by
  refine if_neg fun between => ?_
  have below := UInt8.le_iff_toNat_le.mp between.2
  have upper : (90 : UInt8).toNat = 90 := rfl
  omega

theorem toLower_eq_iff {letter : Char} (plain : letter.val.toNat < 128) (narrow : b.toNat < 128) :
    (Char.ofNat b.toNat).toLower = letter ↔ toAsciiLowercase b = UInt8.ofNat letter.val.toNat := by
  have table : ∀ n < 128, (Char.ofNat n).toLower.val.toNat = (toAsciiLowercase (UInt8.ofNat n)).toNat := by decide +kernel
  have same := table b.toNat narrow
  have small : letter.val.toNat % 2 ^ 8 = letter.val.toNat := Nat.mod_eq_of_lt (plain.trans (by decide))
  rw [UInt8.ofNat_toNat] at same
  rw [Char.ext_iff, ← UInt32.toNat_inj, same, ← UInt8.toNat_inj, UInt8.toNat_ofNat', small]

section Phrases

variable {phrase : List Char}

theorem utf8Bytes_of_plain {letter : Char} (plain : letter.val.toNat < 128) (phrase : List Char) :
    utf8Bytes (letter :: phrase) = UInt8.ofNat letter.val.toNat :: utf8Bytes phrase := by
  rw [utf8Bytes_cons, utf8EncodeChar_of_narrow plain]
  rfl

theorem not_prefix_of_wide (wide : 128 ≤ b.toNat) (nonempty : phrase ≠ []) (plain : ∀ c ∈ phrase, c.val.toNat < 128) :
    ¬ utf8Bytes phrase <+: (b :: rest).map toAsciiLowercase := by
  cases phrase with
  | nil => exact absurd rfl nonempty
  | cons letter phrase =>
    have first := plain letter List.mem_cons_self
    rw [utf8Bytes_of_plain first, List.map_cons, List.cons_prefix_cons, toAsciiLowercase_of_wide wide]
    rintro ⟨same, -⟩
    rw [← same, UInt8.toNat_ofNat'] at wide
    omega

/-- At the start of a character a phrase begins in the text if it does in the bytes. -/
theorem prefix_lossyFrom_iff (plain : ∀ c ∈ phrase, c.val.toNat < 128) :
    phrase <+: (lossyFrom 0 bytes).map Char.toLower ↔ utf8Bytes phrase <+: bytes.map toAsciiLowercase := by
  induction phrase generalizing bytes with
  | nil => exact iff_of_true List.nil_prefix List.nil_prefix
  | cons letter phrase ih =>
    obtain ⟨first, others⟩ := List.forall_mem_cons.mp plain
    cases bytes with
    | nil =>
      rw [utf8Bytes_of_plain first]
      exact iff_of_false (by simp [lossyFrom]) (by simp)
    | cons b rest =>
      by_cases narrow : b.toNat < 128
      · rw [lossyFrom, following_of_narrow narrow, decoded_of_narrow narrow, utf8Bytes_of_plain first, List.map_cons,
          List.map_cons, List.cons_prefix_cons, List.cons_prefix_cons, eq_comm, toLower_eq_iff first narrow, eq_comm]
        exact and_congr_right fun _ => ih others
      · have wide := Nat.not_lt.mp narrow
        refine iff_of_false ?_ (not_prefix_of_wide wide (List.cons_ne_nil _ _) plain)
        have beyond := wide_decoded wide (following b rest)
        rw [lossyFrom, List.map_cons, List.cons_prefix_cons, toLower_of_wide beyond]
        rintro ⟨same, -⟩
        rw [← same] at beyond
        exact Nat.not_lt.mpr beyond first

theorem infix_lossyFrom_iff (nonempty : phrase ≠ []) (plain : ∀ c ∈ phrase, c.val.toNat < 128) {skip : Nat}
    (skipped : ∀ b ∈ bytes.take skip, 128 ≤ b.toNat) :
    phrase <:+: (lossyFrom skip bytes).map Char.toLower ↔ utf8Bytes phrase <:+: bytes.map toAsciiLowercase := by
  induction bytes generalizing skip with
  | nil =>
    cases phrase with
    | nil => exact absurd rfl nonempty
    | cons letter phrase =>
      rw [utf8Bytes_of_plain (plain letter List.mem_cons_self), lossyFrom]
      exact iff_of_false (by simp) (by simp)
  | cons b rest ih =>
    cases skip with
    | succ skip =>
      rw [List.take_succ_cons] at skipped
      obtain ⟨wide, skipped⟩ := List.forall_mem_cons.mp skipped
      rw [lossyFrom, ih skipped, List.map_cons, List.infix_cons_iff]
      exact (or_iff_right (not_prefix_of_wide wide nonempty plain)).symm
    | zero =>
      have own : ∀ other ∈ rest.take (following b rest).length, 128 ≤ other.toNat := by
        rw [← List.prefix_iff_eq_take.mp (starts_following b rest)]
        exact fun other member => wide_of_mem_following member
      have starts := @prefix_lossyFrom_iff (b :: rest) phrase plain
      rw [lossyFrom, List.map_cons, List.map_cons] at starts
      rw [lossyFrom, List.map_cons, List.infix_cons_iff, starts, ih own, List.map_cons, List.infix_cons_iff]

/-- A phrase of plain letters is found in the text exactly if it is in the bytes. -/
theorem infix_fromUtf8Lossy_iff (nonempty : phrase ≠ []) (plain : ∀ c ∈ phrase, c.val.toNat < 128) :
    phrase <:+: (fromUtf8Lossy bytes).map Char.toLower ↔ utf8Bytes phrase <:+: bytes.map toAsciiLowercase :=
  infix_lossyFrom_iff nonempty plain fun _ member => (List.not_mem_nil member).elim

end Phrases

end EkaCI.Lib
