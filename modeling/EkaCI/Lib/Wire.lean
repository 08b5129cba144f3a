import Mathlib.Algebra.Group.Nat.Defs
import Mathlib.Data.List.Induction

/-! Numbers of a fixed width in either byte order, and attributes that carry their own
length and are filled up to a multiple of four bytes. -/

namespace EkaCI.Lib

/-- The low byte first. -/
def littleBytes : Nat → Nat → List UInt8
  | 0, _ => []
  | width + 1, number => UInt8.ofNat number :: littleBytes width (number / 256)

def ofLittleBytes : List UInt8 → Nat
  | [] => 0
  | byte :: rest => byte.toNat + 256 * ofLittleBytes rest

inductive ByteOrder where
  | little
  | big

namespace ByteOrder

def bytes (order : ByteOrder) (width number : Nat) : List UInt8 :=
  match order with
  | .little => littleBytes width number
  | .big => (littleBytes width number).reverse

def number (order : ByteOrder) (bytes : List UInt8) : Nat :=
  match order with
  | .little => ofLittleBytes bytes
  | .big => ofLittleBytes bytes.reverse

/-- A number at the front of the bytes, and what follows it. -/
def read (order : ByteOrder) (width : Nat) (bytes : List UInt8) : Option (Nat × List UInt8) :=
  if width ≤ bytes.length then some (order.number (bytes.take width), bytes.drop width) else none

end ByteOrder

theorem length_littleBytes (width number : Nat) : (littleBytes width number).length = width := by
  induction width generalizing number with
  | zero => rfl
  | succ width ih => rw [littleBytes, List.length_cons, ih]

/-- The bytes that do not fit are lost. -/
theorem ofLittleBytes_littleBytes (width number : Nat) :
    ofLittleBytes (littleBytes width number) = number % 256 ^ width := by
  induction width generalizing number with
  | zero => rw [littleBytes, ofLittleBytes, Nat.pow_zero, Nat.mod_one]
  | succ width ih =>
    have split : number % 256 ^ (width + 1) = number % 256 + 256 * (number / 256 % 256 ^ width) := by
      rw [Nat.pow_succ, Nat.mul_comm, Nat.mod_mul]
    rw [littleBytes, ofLittleBytes, ih, UInt8.toNat_ofNat', split]

namespace ByteOrder

variable (order : ByteOrder)

@[simp] theorem length_bytes (width number : Nat) : (order.bytes width number).length = width := by
  cases order with
  | little => exact length_littleBytes width number
  | big => rw [bytes, List.length_reverse, length_littleBytes]

theorem number_bytes (width number : Nat) : order.number (order.bytes width number) = number % 256 ^ width := by
  cases order with
  | little => exact ofLittleBytes_littleBytes width number
  | big => rw [ByteOrder.number, bytes, List.reverse_reverse, ofLittleBytes_littleBytes]

/-- A number is read back as far as it fits, whatever follows it. -/
theorem read_bytes (width number : Nat) (rest : List UInt8) :
    order.read width (order.bytes width number ++ rest) = some (number % 256 ^ width, rest) := by
  have enough : width ≤ (order.bytes width number ++ rest).length := by
    rw [List.length_append, length_bytes]
    omega
  have taken : (order.bytes width number ++ rest).take width = order.bytes width number :=
    List.take_left' (length_bytes order width number)
  have left : (order.bytes width number ++ rest).drop width = rest :=
    List.drop_left' (length_bytes order width number)
  rw [read, if_pos enough, taken, left, number_bytes order]

theorem read_bytes_of_lt {width number : Nat} (fits : number < 256 ^ width) (rest : List UInt8) :
    order.read width (order.bytes width number ++ rest) = some (number, rest) := by
  rw [read_bytes, Nat.mod_eq_of_lt fits]

end ByteOrder

/-- An attribute whose length and kind fit their fields of two bytes. -/
structure Attribute where
  kind : Nat
  data : List UInt8
  kindFits : kind < 65536
  dataFits : 4 + data.length < 65536

namespace Attribute

/-- What is missing to a multiple of four. -/
def padding (length : Nat) : Nat := (4 - length % 4) % 4

def bytes (order : ByteOrder) (attr : Attribute) : List UInt8 :=
  order.bytes 2 (4 + attr.data.length) ++ order.bytes 2 attr.kind ++ attr.data ++
    List.replicate (padding (4 + attr.data.length)) 0

/-- The length counts its own four bytes of header; the bytes that fill up may be missing at
the very end. -/
def read (order : ByteOrder) (bytes : List UInt8) : Option ((Nat × List UInt8) × List UInt8) := do
  let (length, rest) ← order.read 2 bytes
  let (kind, rest) ← order.read 2 rest
  if 4 ≤ length ∧ length - 4 ≤ rest.length then
    some ((kind, rest.take (length - 4)), (rest.drop (length - 4)).drop (padding length))
  else none

/-- The attributes up to the end of the bytes. -/
def readAll (order : ByteOrder) : Nat → List UInt8 → Option (List (Nat × List UInt8))
  | _, [] => some []
  | 0, _ :: _ => none
  | fuel + 1, byte :: bytes => do
    let (attr, rest) ← read order (byte :: bytes)
    let others ← readAll order fuel rest
    some (attr :: others)

variable (order : ByteOrder)

theorem read_bytes (attr : Attribute) (rest : List UInt8) :
    read order (attr.bytes order ++ rest) = some ((attr.kind, attr.data), rest) := by
  have lengthFits : 4 + attr.data.length < 256 ^ 2 := attr.dataFits
  have kindFits : attr.kind < 256 ^ 2 := attr.kindFits
  have whole : attr.bytes order ++ rest =
      order.bytes 2 (4 + attr.data.length) ++ (order.bytes 2 attr.kind ++ (attr.data ++
        (List.replicate (padding (4 + attr.data.length)) 0 ++ rest))) := by
    simp only [bytes, List.append_assoc]
  have size : 4 + attr.data.length - 4 = attr.data.length := by omega
  rw [whole, read, order.read_bytes_of_lt lengthFits]
  simp only [Option.bind_eq_bind, Option.bind_some]
  rw [order.read_bytes_of_lt kindFits]
  simp only [Option.bind_some, size]
  rw [if_pos ⟨by omega, by rw [List.length_append]; omega⟩, List.take_left, List.drop_left,
    List.drop_left' List.length_replicate]

theorem bytes_ne_nil (attr : Attribute) : attr.bytes order ≠ [] := by
  intro empty
  have size := congrArg List.length empty
  simp only [bytes, List.length_append, ByteOrder.length_bytes, List.length_nil] at size
  omega

/-- A list of attributes is read back from its bytes. -/
theorem readAll_flatMap (attrs : List Attribute) {fuel : Nat} (enough : attrs.length ≤ fuel) :
    readAll order fuel (attrs.flatMap (bytes order)) =
      some (attrs.map fun attr => (attr.kind, attr.data)) := by
  induction attrs generalizing fuel with
  | nil => cases fuel <;> rfl
  | cons attr others ih =>
    cases fuel with
    | zero => exact absurd enough (Nat.not_succ_le_zero _)
    | succ fuel =>
      have first := read_bytes order attr (others.flatMap (bytes order))
      have later := ih (Nat.le_of_succ_le_succ enough)
      rw [List.flatMap_cons]
      cases split : attr.bytes order ++ others.flatMap (bytes order) with
      | nil => exact absurd (List.append_eq_nil_iff.mp split).1 (bytes_ne_nil order attr)
      | cons byte rest =>
        rw [split] at first
        simp only [readAll, first, later, Option.bind_eq_bind, Option.bind_some, List.map_cons]

theorem length_flatMap_le (attrs : List Attribute) :
    attrs.length ≤ (attrs.flatMap (bytes order)).length := by
  induction attrs with
  | nil => exact Nat.le_refl 0
  | cons attr others ih =>
    have nonempty := List.length_pos_iff.mpr (bytes_ne_nil order attr)
    rw [List.flatMap_cons, List.length_append, List.length_cons]
    omega

end Attribute

end EkaCI.Lib
