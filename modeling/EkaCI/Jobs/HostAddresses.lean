import EkaCI.Sandbox.Cidr
import Mathlib.Data.List.Infix
import Mathlib.Tactic.IntervalCases

/-! The addresses that a host can stand for: how an address is written, which blocks are
not public, and which IPv6 addresses carry an IPv4 address. -/

namespace EkaCI

namespace Ipv4Addr

def isLoopback (addr : Ipv4Addr) : Bool := addr.octet 3 = 127

def isPrivate (addr : Ipv4Addr) : Bool :=
  addr.octet 3 = 10 ∨ (addr.octet 3 = 172 ∧ 16 ≤ addr.octet 2 ∧ addr.octet 2 ≤ 31) ∨
    (addr.octet 3 = 192 ∧ addr.octet 2 = 168)

def isLinkLocal (addr : Ipv4Addr) : Bool := addr.octet 3 = 169 ∧ addr.octet 2 = 254

def isUnspecified (addr : Ipv4Addr) : Bool := addr.bits = 0

def broadcast : Ipv4Addr := new 255 255 255 255

def isBroadcast (addr : Ipv4Addr) : Bool := addr = broadcast

end Ipv4Addr

structure Ipv6Addr where
  bits : BitVec 128
  deriving DecidableEq

namespace Ipv6Addr

/-- The group `place` groups above the last one. -/
def segment (addr : Ipv6Addr) (place : Nat) : UInt16 :=
  UInt16.ofNat (addr.bits.toNat / 65536 ^ place)

def octet (addr : Ipv6Addr) (place : Nat) : UInt8 :=
  UInt8.ofNat (addr.bits.toNat / 256 ^ place)

def ofSegments (groups : List UInt16) : Ipv6Addr :=
  ⟨BitVec.ofNat 128 (groups.foldl (fun number group => number * 65536 + group.toNat) 0)⟩

def isLoopback (addr : Ipv6Addr) : Bool := addr.bits = 1

def isUnspecified (addr : Ipv6Addr) : Bool := addr.bits = 0

end Ipv6Addr

def hexDigit (digit : Char) : Option Nat :=
  if digit.isDigit then some (digit.toNat - '0'.toNat)
  else if 'a' ≤ digit ∧ digit ≤ 'f' then some (digit.toNat - 'a'.toNat + 10)
  else if 'A' ≤ digit ∧ digit ≤ 'F' then some (digit.toNat - 'A'.toNat + 10)
  else none

def hexNumber (digits : List Char) : Nat :=
  digits.foldl (fun number digit => number * 16 + (hexDigit digit).getD 0) 0

/-- All the hexadecimal digits there are, at most four. -/
def readGroup : Reader UInt16 := fun text =>
  let digits := text.takeWhile (fun digit => (hexDigit digit).isSome)
  if digits = [] ∨ 4 < digits.length then none
  else some (UInt16.ofNat (hexNumber digits), text.dropWhile (fun digit => (hexDigit digit).isSome))

def readColon : Reader Unit
  | ':' :: rest => some ((), rest)
  | _ => none

/-- A separator stands before every group but the first. -/
def readSeparated {α : Type} (first : Bool) (inner : Reader α) : Reader α := fun text =>
  if first then inner text
  else do
    let ((), text) ← readColon text
    inner text

def readIpv4 : Reader Ipv4Addr := fun text => do
  let (a, text) ← readOctet text
  let ((), text) ← readDot text
  let (b, text) ← readOctet text
  let ((), text) ← readDot text
  let (c, text) ← readOctet text
  let ((), text) ← readDot text
  let (d, text) ← readOctet text
  some (.new a b c d, text)

/-- The groups of an IPv4 address, which may take the place of the last two. -/
def Ipv4Addr.groups (addr : Ipv4Addr) : List UInt16 :=
  [UInt16.ofNat (addr.bits.toNat / 65536), UInt16.ofNat addr.bits.toNat]

/-- The groups there are up to a limit, whether they end with an IPv4 address, and the text
after them. -/
def readGroups : Nat → Bool → List Char → List UInt16 × Bool × List Char
  | 0, _, text => ([], false, text)
  | limit + 1, first, text =>
    match if 1 ≤ limit then readSeparated first readIpv4 text else none with
    | some (addr, rest) => (addr.groups, true, rest)
    | none =>
      match readSeparated first readGroup text with
      | some (group, rest) =>
        let (groups, ipv4, rest) := readGroups limit false rest
        (group :: groups, ipv4, rest)
      | none => ([], false, text)

/-- Eight groups, or fewer with a double colon for at least one group of zeros. -/
def Ipv6Addr.parse (text : List Char) : Option Ipv6Addr :=
  let (head, ipv4, text) := readGroups 8 true text
  if head.length = 8 then
    if text = [] then some (.ofSegments head) else none
  else if ipv4 then none
  else do
    let ((), text) ← readColon text
    let ((), text) ← readColon text
    let (tail, _, text) := readGroups (8 - (head.length + 1)) true text
    if text = [] then some (.ofSegments (head ++ List.replicate (8 - head.length - tail.length) 0 ++ tail))
    else none

theorem Ipv4Addr.parse_eq (text : List Char) :
    Ipv4Addr.parse text =
      (readIpv4 text).bind (fun (addr, rest) => if rest = [] then some addr else none) := by
  simp only [Ipv4Addr.parse, readIpv4, Option.bind_eq_bind, Option.bind_assoc, Option.bind_some]

theorem readIpv4_of_parse {text : List Char} {addr : Ipv4Addr} (parsed : Ipv4Addr.parse text = some addr) :
    readIpv4 text = some (addr, []) := by
  rw [Ipv4Addr.parse_eq, Option.bind_eq_some_iff] at parsed
  obtain ⟨⟨read, rest⟩, reads, ends⟩ := parsed
  rw [Option.ite_none_right_eq_some] at ends
  obtain ⟨rfl, same⟩ := ends
  rw [reads, Option.some.inj same]

/-- An IPv4 address is no IPv6 address: six groups are missing, and none may be left out
after it. -/
theorem Ipv6Addr.parse_eq_none {text : List Char} {addr : Ipv4Addr}
    (parsed : Ipv4Addr.parse text = some addr) : Ipv6Addr.parse text = none := by
  have groups : readGroups 8 true text = (addr.groups, true, []) := by
    rw [readGroups, readSeparated, if_pos (by decide), if_pos rfl, readIpv4_of_parse parsed]
  rw [Ipv6Addr.parse, groups]
  rfl

/-- A number in hexadecimal after `0x`, in octal after another zero, or else in decimal. -/
def readNumber : List Char → Option Nat
  | '0' :: 'x' :: digits => if digits.all (hexDigit · |>.isSome) then some (hexNumber digits) else none
  | '0' :: digits =>
    if digits.all (fun digit => digit.isDigit && digit ≤ '7') then some (Nat.ofDigitChars 8 digits 0) else none
  | digits => if digits ≠ [] ∧ digits.all Char.isDigit then some (Nat.ofDigitChars 10 digits 0) else none

namespace Ipv4Addr

/-- One to four numbers. The last one stands for all the octets that are left. -/
def ofNumbers (numbers : List Nat) : Option Ipv4Addr :=
  let front := numbers.dropLast
  let room := 256 ^ (4 - front.length)
  if numbers ≠ [] ∧ numbers.length ≤ 4 ∧ (∀ number ∈ front, number ≤ 255) ∧ numbers.getLastD 0 < room then
    some ⟨BitVec.ofNat 32 (front.foldl (fun address number => address * 256 + number) 0 * room +
      numbers.getLastD 0)⟩
  else none

/-- The address in the looser form that C libraries and browsers read. -/
def parseNumbers (text : List Char) : Option Ipv4Addr :=
  ((text.splitOn '.').mapM readNumber).bind ofNumbers

example : parseNumbers "0x7f.1".toList = some (new 127 0 0 1) := by decide

/-- The first `length` bits are those of the block. -/
def Within (addr block : Ipv4Addr) (length : Nat) : Prop :=
  addr.bits.toNat / 2 ^ (32 - length) = block.bits.toNat / 2 ^ (32 - length)

/-- Loopback, private, link-local, unspecified and carrier-grade addresses. -/
def privateBlocks : List (Ipv4Addr × Nat) :=
  [(new 127 0 0 0, 8), (new 10 0 0 0, 8), (new 172 16 0 0, 12), (new 192 168 0 0, 16),
    (new 169 254 0 0, 16), (new 0 0 0 0, 32), (new 100 64 0 0, 10)]

def Private (addr : Ipv4Addr) : Prop := ∃ block ∈ privateBlocks, addr.Within block.1 block.2

/-- What no cache may have for an address. -/
def Barred (addr : Ipv4Addr) : Prop := addr.Private ∨ addr = broadcast

theorem toNat_octet (addr : Ipv4Addr) (place : Nat) :
    (addr.octet place).toNat = addr.bits.toNat / 256 ^ place % 256 := UInt8.toNat_ofNat'

theorem toNat_new (a b c d : UInt8) :
    (new a b c d).bits.toNat = ((a.toNat * 256 + b.toNat) * 256 + c.toNat) * 256 + d.toNat := by
  have := a.toNat_lt
  have := b.toNat_lt
  have := c.toNat_lt
  have := d.toNat_lt
  rw [new, BitVec.toNat_ofNat, Nat.mod_eq_of_lt (by omega)]

theorem within_iff {length : Nat} (long : 8 ≤ length) (short : length ≤ 16) (addr : Ipv4Addr) (a b : UInt8) :
    addr.Within (new a b 0 0) length ↔
      addr.octet 3 = a ∧ (addr.octet 2).toNat / 2 ^ (16 - length) = b.toNat / 2 ^ (16 - length) := by
  have bound : addr.bits.toNat < 2 ^ 32 := addr.bits.isLt
  have := a.toNat_lt
  have := b.toNat_lt
  rw [Within, toNat_new, ← UInt8.toNat_inj, toNat_octet, toNat_octet]
  interval_cases length <;> simp only [Nat.reduceSub, Nat.reducePow, UInt8.toNat_zero] <;> omega

theorem within_whole_iff (addr block : Ipv4Addr) : addr.Within block 32 ↔ addr.bits = block.bits := by
  rw [Within, ← BitVec.toNat_inj, Nat.sub_self, Nat.pow_zero, Nat.div_one, Nat.div_one]

theorem private_iff (addr : Ipv4Addr) :
    addr.Private ↔
      addr.octet 3 = 127 ∨ addr.octet 3 = 10 ∨ (addr.octet 3 = 172 ∧ (addr.octet 2).toNat / 16 = 1) ∨
        (addr.octet 3 = 192 ∧ addr.octet 2 = 168) ∨ (addr.octet 3 = 169 ∧ addr.octet 2 = 254) ∨
        addr.bits = 0 ∨ (addr.octet 3 = 100 ∧ (addr.octet 2).toNat / 64 = 1) := by
  have second := (addr.octet 2).toNat_lt
  have low : (addr.octet 2).toNat / 256 = 0 := by omega
  simp only [Private, privateBlocks, List.mem_cons, List.not_mem_nil, or_false, exists_eq_or_imp, exists_eq_left,
    within_iff (by decide : 8 ≤ 8) (by decide), within_iff (by decide : 8 ≤ 10) (by decide),
    within_iff (by decide : 8 ≤ 12) (by decide), within_iff (by decide : 8 ≤ 16) (by decide), within_whole_iff,
    Nat.reduceSub, Nat.reducePow, Nat.div_one, UInt8.toNat_inj, low]
  have zero : (new 0 0 0 0).bits = 0 := rfl
  simp [zero]

end Ipv4Addr

namespace Ipv6Addr

def Within (addr block : Ipv6Addr) (length : Nat) : Prop :=
  addr.bits.toNat / 2 ^ (128 - length) = block.bits.toNat / 2 ^ (128 - length)

/-- Loopback, unspecified, link-local and unique-local addresses. -/
def privateBlocks : List (Ipv6Addr × Nat) :=
  [(ofSegments [0, 0, 0, 0, 0, 0, 0, 1], 128), (ofSegments [0, 0, 0, 0, 0, 0, 0, 0], 128),
    (ofSegments [0xfe80, 0, 0, 0, 0, 0, 0, 0], 10), (ofSegments [0xfc00, 0, 0, 0, 0, 0, 0, 0], 7)]

def Private (addr : Ipv6Addr) : Prop := ∃ block ∈ privateBlocks, addr.Within block.1 block.2

theorem toNat_segment (addr : Ipv6Addr) (place : Nat) :
    (addr.segment place).toNat = addr.bits.toNat / 65536 ^ place % 65536 := UInt16.toNat_ofNat'

theorem toNat_octet (addr : Ipv6Addr) (place : Nat) :
    (addr.octet place).toNat = addr.bits.toNat / 256 ^ place % 256 := UInt8.toNat_ofNat'

end Ipv6Addr

theorem and_shifted_mask (number count place : Nat) :
    number &&& ((2 ^ count - 1) <<< place) = (number / 2 ^ place % 2 ^ count) <<< place := by
  apply Nat.eq_of_testBit_eq
  intro bit
  rw [Nat.testBit_and, Nat.testBit_shiftLeft, Nat.testBit_shiftLeft, Nat.testBit_two_pow_sub_one,
    Nat.testBit_mod_two_pow, Nat.testBit_div_two_pow]
  by_cases above : place ≤ bit
  · simp [above, Bool.and_comm]
  · simp [above]

/-- The ways to carry an IPv4 address in an IPv6 address. -/
inductive Embedding where
  | mapped
  | compatible
  | translated
  | sixToFour
  | teredo
  | nat64
  deriving DecidableEq

/-- The prefix, its length, and the number of bits after the IPv4 address. -/
def Embedding.layout : Embedding → Ipv6Addr × Nat × Nat
  | .mapped => (.ofSegments [0, 0, 0, 0, 0, 0xffff, 0, 0], 96, 0)
  | .compatible => (.ofSegments [0, 0, 0, 0, 0, 0, 0, 0], 96, 0)
  | .translated => (.ofSegments [0, 0, 0, 0, 0xffff, 0, 0, 0], 96, 0)
  | .sixToFour => (.ofSegments [0x2002, 0, 0, 0, 0, 0, 0, 0], 16, 80)
  | .teredo => (.ofSegments [0x2001, 0, 0, 0, 0, 0, 0, 0], 32, 0)
  | .nat64 => (.ofSegments [0x64, 0xff9b, 0, 0, 0, 0, 0, 0], 96, 0)

/-- Teredo writes the address with every bit turned over. -/
def Embedding.unwrap (embedding : Embedding) (addr : Ipv6Addr) : Ipv4Addr :=
  let bits := BitVec.ofNat 32 (addr.bits.toNat / 2 ^ embedding.layout.2.2)
  ⟨if embedding = .teredo then ~~~bits else bits⟩

/-- The IPv6 address carries the IPv4 address in this way. -/
def Embedding.Carries (embedding : Embedding) (addr : Ipv6Addr) (embedded : Ipv4Addr) : Prop :=
  addr.Within embedding.layout.1 embedding.layout.2.1 ∧ embedded = embedding.unwrap addr

example : Ipv6Addr.parse "::ffff:127.0.0.1".toList = some ⟨0xffff7f000001#128⟩ := by decide

end EkaCI
