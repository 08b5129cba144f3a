import Mathlib.Data.List.Induction

/-! Bytes as pairs of hexadecimal digits. Digits are written in lower case, and read in
either case. -/

namespace EkaCI.Lib.Hex

/-- The first digit that is none, with its index, or a digit without its pair. -/
inductive FromHexError where
  | invalidHexCharacter (c : UInt8) (index : Nat)
  | oddLength

def value (c : UInt8) : Option Nat :=
  if 97 ≤ c.toNat ∧ c.toNat ≤ 102 then some (c.toNat - 87)
  else if 65 ≤ c.toNat ∧ c.toNat ≤ 70 then some (c.toNat - 55)
  else if 48 ≤ c.toNat ∧ c.toNat ≤ 57 then some (c.toNat - 48)
  else none

def digit (value : Nat) : UInt8 := UInt8.ofNat (if value < 10 then 48 + value else 87 + value)

/-- The letter in lower case. -/
def lower (c : UInt8) : UInt8 := if 65 ≤ c.toNat ∧ c.toNat ≤ 90 then UInt8.ofNat (c.toNat + 32) else c

def encode : List UInt8 → List UInt8
  | [] => []
  | byte :: rest => digit (byte.toNat / 16) :: digit (byte.toNat % 16) :: encode rest

/-- The value of the character at an index. -/
def valueAt (c : UInt8) (index : Nat) : Except FromHexError Nat :=
  match value c with
  | some value => .ok value
  | none => .error (.invalidHexCharacter c index)

def decodePairs (index : Nat) : List UInt8 → Except FromHexError (List UInt8)
  | high :: low :: rest => do
    let upper ← valueAt high index
    let lower ← valueAt low (index + 1)
    return UInt8.ofNat (16 * upper + lower) :: (← decodePairs (index + 2) rest)
  | _ => .ok []

/-- The length is looked at before the characters. -/
def decode (text : List UInt8) : Except FromHexError (List UInt8) :=
  if text.length % 2 = 1 then .error .oddLength else decodePairs 0 text

theorem ofNat_eq_iff {small : Nat} (fits : small < 256) {c : UInt8} : c = UInt8.ofNat small ↔ c.toNat = small := by
  have same : (UInt8.ofNat small).toNat = small := by
    rw [UInt8.toNat_ofNat']
    omega
  rw [← UInt8.toNat_inj, same]

theorem toNat_lower (c : UInt8) :
    (lower c).toNat = if 65 ≤ c.toNat ∧ c.toNat ≤ 90 then c.toNat + 32 else c.toNat := by
  have bound := c.toNat_lt
  rw [lower]
  split
  · rw [UInt8.toNat_ofNat']
    omega
  · rfl

theorem value_lt {c : UInt8} {number : Nat} (read : value c = some number) : number < 16 := by
  rw [value] at read
  split_ifs at read <;> cases read <;> omega

/-- A character is read as the digit that it is in lower case. -/
theorem value_eq_some_iff {c : UInt8} {number : Nat} (small : number < 16) :
    value c = some number ↔ lower c = digit number := by
  rw [digit, ofNat_eq_iff (by split <;> omega), toNat_lower, value]
  split_ifs <;> simp only [Option.some.injEq, false_iff] <;> omega

theorem byte_eq_iff {byte : UInt8} {upper lower : Nat} (upperSmall : upper < 16) (lowerSmall : lower < 16) :
    UInt8.ofNat (16 * upper + lower) = byte ↔ upper = byte.toNat / 16 ∧ lower = byte.toNat % 16 := by
  rw [eq_comm, ofNat_eq_iff (by omega)]
  omega

theorem valueAt_eq_ok_iff {c : UInt8} {index number : Nat} : valueAt c index = .ok number ↔ value c = some number := by
  rw [valueAt]
  cases value c with
  | none => exact iff_of_false nofun nofun
  | some other => rw [Except.ok.injEq, Option.some.injEq]

variable {bytes text : List UInt8}

theorem decodePairs_cons {high low : UInt8} {rest : List UInt8} {index : Nat} :
    decodePairs index (high :: low :: rest) = .ok bytes ↔ ∃ upper lower others, value high = some upper ∧
      value low = some lower ∧ decodePairs (index + 2) rest = .ok others ∧
        bytes = UInt8.ofNat (16 * upper + lower) :: others := by
  rw [decodePairs]
  constructor
  · intro read
    cases first : valueAt high index with
    | error error => simp [first, bind, Except.bind] at read
    | ok upper =>
      cases second : valueAt low (index + 1) with
      | error error => simp [first, second, bind, Except.bind] at read
      | ok lower =>
        cases rested : decodePairs (index + 2) rest with
        | error error => simp [first, second, rested, bind, Except.bind] at read
        | ok others =>
          simp only [first, second, rested, bind, Except.bind, pure, Except.pure, Except.ok.injEq] at read
          exact ⟨upper, lower, others, valueAt_eq_ok_iff.mp first, valueAt_eq_ok_iff.mp second, rfl, read.symm⟩
  · rintro ⟨upper, lower, others, first, second, rested, rfl⟩
    rw [valueAt_eq_ok_iff.mpr first, valueAt_eq_ok_iff.mpr second, rested]
    rfl

theorem decodePairs_eq_ok_iff (even : text.length % 2 = 0) (index : Nat) :
    decodePairs index text = .ok bytes ↔ text.map lower = encode bytes := by
  induction text using List.twoStepInduction generalizing bytes index with
  | nil =>
    rw [decodePairs, Except.ok.injEq, List.map_nil]
    · cases bytes with
      | nil => exact iff_of_true rfl rfl
      | cons byte rest => exact iff_of_false nofun nofun
    · exact nofun
  | singleton c => cases even
  | cons_cons high low rest ih _ =>
    have evenRest : rest.length % 2 = 0 := by
      rw [List.length_cons, List.length_cons] at even
      omega
    rw [decodePairs_cons]
    cases bytes with
    | nil =>
      apply iff_of_false
      · rintro ⟨_, _, _, _, _, _, absurd⟩
        cases absurd
      · exact nofun
    | cons byte others =>
      have upperSmall : byte.toNat / 16 < 16 := by
        have bound := byte.toNat_lt
        omega
      have lowerSmall : byte.toNat % 16 < 16 := Nat.mod_lt _ (by decide)
      rw [List.map_cons, List.map_cons, encode, List.cons.injEq, List.cons.injEq, ← value_eq_some_iff upperSmall,
        ← value_eq_some_iff lowerSmall, ← ih evenRest (index + 2)]
      constructor
      · rintro ⟨upper, lower, _, first, second, rested, same⟩
        obtain ⟨whole, rfl⟩ := List.cons.inj same
        obtain ⟨rfl, rfl⟩ := (byte_eq_iff (value_lt first) (value_lt second)).mp whole.symm
        exact ⟨first, second, rested⟩
      · rintro ⟨first, second, rested⟩
        refine ⟨_, _, others, first, second, rested, ?_⟩
        rw [(byte_eq_iff upperSmall lowerSmall).mpr ⟨rfl, rfl⟩]

theorem length_encode (bytes : List UInt8) : (encode bytes).length = 2 * bytes.length := by
  induction bytes with
  | nil => rfl
  | cons byte rest ih =>
    rw [encode, List.length_cons, List.length_cons, List.length_cons, ih]
    omega

/-- A text is read as some bytes exactly if it is, in lower case, what they are written as. -/
theorem decode_eq_ok_iff : decode text = .ok bytes ↔ text.map lower = encode bytes := by
  rw [decode]
  split
  · rename_i odd
    apply iff_of_false nofun
    intro same
    have lengths := congrArg List.length same
    rw [List.length_map, length_encode] at lengths
    omega
  · rename_i even
    exact decodePairs_eq_ok_iff (by omega) 0

/-- The characters that are written. -/
theorem mem_encode {c : UInt8} (member : c ∈ encode bytes) : 48 ≤ c.toNat ∧ c.toNat ≤ 102 := by
  induction bytes with
  | nil => cases member
  | cons byte rest ih =>
    have bound := byte.toNat_lt
    have small : ∀ number, number < 16 → 48 ≤ (digit number).toNat ∧ (digit number).toNat ≤ 102 := by
      intro number small
      rw [digit, UInt8.toNat_ofNat']
      split <;> omega
    rw [encode, List.mem_cons, List.mem_cons] at member
    rcases member with rfl | rfl | member
    · exact small _ (by omega)
    · exact small _ (Nat.mod_lt _ (by decide))
    · exact ih member

end EkaCI.Lib.Hex
