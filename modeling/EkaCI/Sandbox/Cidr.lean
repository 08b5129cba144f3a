import EkaCI.Lib.LongestMatch
import Mathlib.Algebra.Ring.Nat

/-! IPv4 prefixes as the sandbox configuration writes them. A prefix has no host bits set,
whichever way it was made, and reading back what was printed gives the same prefix. -/

namespace EkaCI

structure Ipv4Addr where
  bits : BitVec 32
  deriving DecidableEq

namespace Ipv4Addr

def new (a b c d : UInt8) : Ipv4Addr :=
  ⟨BitVec.ofNat 32 (((a.toNat * 256 + b.toNat) * 256 + c.toNat) * 256 + d.toNat)⟩

/-- The octet `place` octets above the last one. -/
def octet (addr : Ipv4Addr) (place : Nat) : UInt8 :=
  UInt8.ofNat (addr.bits.toNat / 256 ^ place)

theorem new_octets (addr : Ipv4Addr) : new (addr.octet 3) (addr.octet 2) (addr.octet 1) (addr.octet 0) = addr := by
  cases addr with
  | mk bits =>
    have bound : bits.toNat < 2 ^ 32 := bits.isLt
    refine congrArg mk (BitVec.eq_of_toNat_eq ?_)
    simp only [octet, UInt8.toNat_ofNat', BitVec.toNat_ofNat]
    omega

end Ipv4Addr

/-- The part of a digit string or an address that the text starts with. -/
abbrev Reader (α : Type) := List Char → Option (α × List Char)

def displayOctet (octet : UInt8) : List Char := Nat.toDigits 10 octet.toNat

/-- All the digits there are, at most three, without a leading zero. -/
def readOctet : Reader UInt8 := fun text =>
  let digits := text.takeWhile Char.isDigit
  if digits = [] ∨ 3 < digits.length then none
  else if digits.head? = some '0' ∧ 1 < digits.length then none
  else if Nat.ofDigitChars 10 digits 0 ≤ 255 then
    some (UInt8.ofNat (Nat.ofDigitChars 10 digits 0), text.dropWhile Char.isDigit)
  else none

def readDot : Reader Unit
  | '.' :: rest => some ((), rest)
  | _ => none

namespace Ipv4Addr

def display (addr : Ipv4Addr) : List Char :=
  displayOctet (addr.octet 3) ++ '.' :: (displayOctet (addr.octet 2) ++
    '.' :: (displayOctet (addr.octet 1) ++ '.' :: displayOctet (addr.octet 0)))

/-- Four octets and nothing after them. The limit of fifteen bytes never decides, since an
octet has at most three digits. -/
def parse (text : List Char) : Option Ipv4Addr := do
  let (a, text) ← readOctet text
  let ((), text) ← readDot text
  let (b, text) ← readOctet text
  let ((), text) ← readDot text
  let (c, text) ← readOctet text
  let ((), text) ← readDot text
  let (d, text) ← readOctet text
  if text = [] then some (new a b c d) else none

end Ipv4Addr

/-- A number of one byte: a plus sign may come first, and zeros may. -/
def parseU8 (text : List Char) : Option Nat :=
  let digits := if text.head? = some '+' then text.drop 1 else text
  if digits ≠ [] ∧ digits.all Char.isDigit ∧ Nat.ofDigitChars 10 digits 0 ≤ 255 then
    some (Nat.ofDigitChars 10 digits 0)
  else none

variable (octet : UInt8)

theorem displayOctet_isDigit : ∀ digit ∈ displayOctet octet, digit.isDigit = true :=
  fun _ member => Nat.isDigit_of_mem_toDigits (by omega) (by omega) member

theorem ofDigitChars_displayOctet : Nat.ofDigitChars 10 (displayOctet octet) 0 = octet.toNat :=
  Nat.ofDigitChars_ten_toDigits

theorem displayOctet_ne_nil : displayOctet octet ≠ [] := Nat.toDigits_ne_nil

theorem displayOctet_length_le : (displayOctet octet).length ≤ 3 := by
  have bound : octet.toNat < 256 := octet.toNat_lt
  apply (Nat.length_toDigits_le_iff (by omega) (by omega)).mpr
  omega

theorem displayOctet_no_leading_zero :
    ¬((displayOctet octet).head? = some '0' ∧ 1 < (displayOctet octet).length) := by
  have all : ∀ value : Fin 256,
      ¬((Nat.toDigits 10 value.val).head? = some '0' ∧ 1 < (Nat.toDigits 10 value.val).length) := by
    decide +kernel
  exact all ⟨octet.toNat, octet.toNat_lt⟩

theorem readOctet_displayOctet (rest : List Char) (ends : rest.takeWhile Char.isDigit = []) :
    readOctet (displayOctet octet ++ rest) = some (octet, rest) := by
  have digits := displayOctet_isDigit octet
  have taken : (displayOctet octet ++ rest).takeWhile Char.isDigit = displayOctet octet := by
    rw [List.takeWhile_append_of_pos digits, ends, List.append_nil]
  have left : (displayOctet octet ++ rest).dropWhile Char.isDigit = rest := by
    rw [List.dropWhile_append_of_pos digits]
    have whole := List.takeWhile_append_dropWhile (p := Char.isDigit) (l := rest)
    rwa [ends, List.nil_append] at whole
  have bound : octet.toNat ≤ 255 := Nat.le_of_lt_succ octet.toNat_lt
  simp only [readOctet, taken, left, ofDigitChars_displayOctet]
  rw [if_neg (by simpa [displayOctet_ne_nil] using displayOctet_length_le octet),
    if_neg (displayOctet_no_leading_zero octet), if_pos bound, UInt8.ofNat_toNat]

theorem Ipv4Addr.parse_display (addr : Ipv4Addr) : parse addr.display = some addr := by
  have last := readOctet_displayOctet (addr.octet 0) [] rfl
  rw [List.append_nil] at last
  have dot : ∀ rest : List Char, ('.' :: rest).takeWhile Char.isDigit = [] := fun _ => rfl
  simp only [parse, display, Option.bind_eq_bind]
  rw [readOctet_displayOctet _ _ (dot _), Option.bind_some]
  simp only [readDot, Option.bind_some]
  rw [readOctet_displayOctet _ _ (dot _), Option.bind_some]
  simp only [Option.bind_some]
  rw [readOctet_displayOctet _ _ (dot _), Option.bind_some]
  simp only [Option.bind_some]
  rw [last, Option.bind_some, if_pos rfl, new_octets]

/-- The bits of an address that a prefix of this length fixes. A shift by the whole width
has no result, and the mask is then zero. -/
def mask (prefixLen : Nat) : BitVec 32 :=
  if 32 - prefixLen < 32 then BitVec.allOnes 32 <<< (32 - prefixLen) else 0#32

theorem mask_zero : mask 0 = 0#32 := rfl

theorem mask_host : mask 32 = BitVec.allOnes 32 := rfl

structure Ipv4Cidr where
  addr : Ipv4Addr
  prefixLen : Nat
  short : prefixLen ≤ 32
  noHostBits : addr.bits &&& ~~~mask prefixLen = 0#32
  deriving DecidableEq

inductive CidrError where
  | prefixTooLong (prefixLen : Nat)
  | hostBits (addr : Ipv4Addr) (prefixLen : Nat)
  | badPrefix (text : String)
  | notAnAddress (text : String)
  | invalid (text : String) (cause : CidrError)

namespace Ipv4Cidr

def new (addr : Ipv4Addr) (prefixLen : Nat) : Except CidrError Ipv4Cidr :=
  if short : prefixLen ≤ 32 then
    if clear : addr.bits &&& ~~~mask prefixLen = 0#32 then .ok ⟨addr, prefixLen, short, clear⟩
    else .error (.hostBits addr prefixLen)
  else .error (.prefixTooLong prefixLen)

theorem host_clear (addr : Ipv4Addr) : addr.bits &&& ~~~mask 32 = 0#32 := by
  simp [mask_host]

def host (addr : Ipv4Addr) : Ipv4Cidr := ⟨addr, 32, Nat.le_refl 32, host_clear addr⟩

@[simp] theorem new_self (cidr : Ipv4Cidr) : new cidr.addr cidr.prefixLen = .ok cidr := by
  simp [new, cidr.short, cidr.noHostBits]

/-- Without a slash the text is one address. -/
def parse (text : String) : Except CidrError Ipv4Cidr := do
  let (addr, prefixLen) ←
    match text.toList.dropWhile (· ≠ '/') with
    | [] => .ok (text.toList, 32)
    | _ :: digits =>
      match parseU8 digits with
      | some prefixLen => .ok (text.toList.takeWhile (· ≠ '/'), prefixLen)
      | none => .error (.badPrefix text)
  match Ipv4Addr.parse addr with
  | some addr => (new addr prefixLen).mapError (.invalid text)
  | none => .error (.notAnAddress text)

def display (cidr : Ipv4Cidr) : String :=
  String.ofList (cidr.addr.display ++ '/' :: Nat.toDigits 10 cidr.prefixLen)

end Ipv4Cidr

theorem parseU8_toDigits {number : Nat} (small : number ≤ 255) : parseU8 (Nat.toDigits 10 number) = some number := by
  have digits : ∀ digit ∈ Nat.toDigits 10 number, digit.isDigit = true :=
    fun _ member => Nat.isDigit_of_mem_toDigits (by omega) (by omega) member
  have unsigned : (Nat.toDigits 10 number).head? ≠ some '+' := by
    intro plus
    have sign := digits '+' (List.mem_of_mem_head? plus)
    exact absurd sign (by decide)
  simp only [parseU8, if_neg unsigned, Nat.ofDigitChars_ten_toDigits]
  rw [if_pos ⟨Nat.toDigits_ne_nil, List.all_eq_true.mpr digits, small⟩]

theorem Ipv4Addr.display_no_slash (addr : Ipv4Addr) :
    ∀ character ∈ addr.display, decide (character ≠ '/') = true := by
  have digit : ∀ (octet : UInt8) (character : Char), character ∈ displayOctet octet → character ≠ '/' := by
    intro octet character member slash
    have isDigit := displayOctet_isDigit octet character member
    subst character
    exact absurd isDigit (by decide)
  intro character member
  simp only [display, List.mem_append, List.mem_cons] at member
  apply decide_eq_true
  rcases member with member | rfl | member | rfl | member | rfl | member
  · exact digit _ _ member
  · decide
  · exact digit _ _ member
  · decide
  · exact digit _ _ member
  · decide
  · exact digit _ _ member

namespace Ipv4Cidr

theorem parse_display (cidr : Ipv4Cidr) : parse cidr.display = .ok cidr := by
  have plain := cidr.addr.display_no_slash
  have after : (cidr.addr.display ++ '/' :: Nat.toDigits 10 cidr.prefixLen).dropWhile (· ≠ '/')
      = '/' :: Nat.toDigits 10 cidr.prefixLen := by
    rw [List.dropWhile_append_of_pos plain, List.dropWhile_cons_of_neg (by decide)]
  have before : (cidr.addr.display ++ '/' :: Nat.toDigits 10 cidr.prefixLen).takeWhile (· ≠ '/')
      = cidr.addr.display := by
    rw [List.takeWhile_append_of_pos plain, List.takeWhile_cons_of_neg (by decide), List.append_nil]
  have small : cidr.prefixLen ≤ 255 := Nat.le_trans cidr.short (by omega)
  simp only [parse, display, String.toList_ofList, after, before, parseU8_toDigits small]
  simp [bind, Except.bind, Ipv4Addr.parse_display, Except.mapError]

def contains (cidr : Ipv4Cidr) (addr : Ipv4Addr) : Bool :=
  addr.bits &&& mask cidr.prefixLen = cidr.addr.bits

theorem ext_of {first second : Ipv4Cidr} (addr : first.addr.bits = second.addr.bits)
    (length : first.prefixLen = second.prefixLen) : first = second := by
  cases first with
  | mk firstAddr _ _ _ =>
    cases second with
    | mk secondAddr _ _ _ =>
      cases firstAddr
      cases secondAddr
      simp_all

theorem contains_host (addr other : Ipv4Addr) : (host addr).contains other = true ↔ other = addr := by
  cases addr with
  | mk bits =>
    cases other with
    | mk otherBits =>
      rw [contains, host, mask_host, BitVec.and_allOnes]
      simp

/-- Addresses under the prefixes that contain them. -/
def cover : Lib.Cover Ipv4Cidr Ipv4Addr where
  covers := contains
  length := prefixLen
  unique := by
    intro key other address keyCovers otherCovers length
    simp only [contains, decide_eq_true_eq] at keyCovers otherCovers
    refine ext_of ?_ length
    rw [← keyCovers, ← otherCovers, length]

end Ipv4Cidr

end EkaCI
