import EkaCI.Lib.ByteSlices
import EkaCI.Lib.Json
import EkaCI.Lib.Lines
import EkaCI.Nix.DrvIdentifier

/-! The type of derivation identifiers in the crate that is shared and in the server, and the
ways in which a text gets into each of them. -/

namespace EkaCI

open Lib

def nixBase32Bytes : List UInt8 := utf8Bytes nixBase32Alphabet

def isValidNameByte (b : UInt8) : Bool := isAsciiAlphanumeric b || (utf8Bytes "+-._?=".toList).contains b

/-- The checks of both copies; what is kept is the part after the last slash. -/
def checkedName (value : List Char) : Option (List Char) :=
  let id := stripStorePath value
  if id = [] ∨ drvIdMaxLen < byteLen id then none
  else
    match rsplitOnce '.' id with
    | none => none
    | some (stem, extension) =>
      if extension ≠ "drv".toList then none
      else
        match splitOnce '-' stem with
        | none => none
        | some (hash, name) =>
          if hash = [] ∨ name = [] then none
          else if byteLen hash ≠ 32 then none
          else if !(utf8Bytes hash).all nixBase32Bytes.contains then none
          else if !(utf8Bytes name).all isValidNameByte then none
          else some id

structure SharedDrvId where
  text : String

structure ServerDrvId where
  text : String

namespace SharedDrvId

def tryFrom (value : String) : Option SharedDrvId := (checkedName value.toList).map fun id => ⟨String.ofList id⟩

def fromStr (value : String) : Option SharedDrvId := tryFrom value

def storePath (id : SharedDrvId) : String := "/nix/store/" ++ id.text

/-- `none` is the panic of a text that is too short, or has a character across the end. -/
def drvHash (id : SharedDrvId) : Option (List Char) := sliceTo 32 id.text.toList

end SharedDrvId

namespace ServerDrvId

def tryFrom (value : String) : Option ServerDrvId := (checkedName value.toList).map fun id => ⟨String.ofList id⟩

def fromStr (value : String) : Option ServerDrvId := tryFrom value

def drvHash (id : ServerDrvId) : Option (List Char) := sliceTo 32 id.text.toList

/-- A column of a row. -/
def decode (column : String) : Option ServerDrvId := tryFrom column

/-- A row of one column, by the derived reader: the field is a string like any other. -/
def fromRow (column : String) : Option ServerDrvId := some ⟨column⟩

/-- The derived reader takes the one field as it is. -/
def deserialize (json : Json) : Option ServerDrvId := (Json.getStr json).map ServerDrvId.mk

/-- Every way in which a text becomes an identifier of the server. -/
def ways : List (String → Option ServerDrvId) := [tryFrom, fromStr, decode, fromRow, fun value => deserialize (.str value)]

end ServerDrvId

/-- The grammar. -/
structure IsIdentifier (id : List Char) : Prop where
  short : byteLen id ≤ 211
  parts : ∃ hash name, id = hash ++ '-' :: name ++ ".drv".toList ∧ hash.length = 32 ∧
    (∀ c ∈ hash, c ∈ nixBase32Alphabet) ∧ name ≠ [] ∧ ∀ c ∈ name, isValidNameChar c = true

def AfterLastSlash (value part : List Char) : Prop :=
  '/' ∉ part ∧ (value = part ∨ ∃ front, value = front ++ '/' :: part)

structure TryFromExact (value : String) : Prop where
  accepts : ∀ id : SharedDrvId,
    SharedDrvId.tryFrom value = some id ↔ AfterLastSlash value.toList id.text.toList ∧ IsIdentifier id.text.toList
  parses : SharedDrvId.fromStr value = SharedDrvId.tryFrom value
  again : ∀ id, SharedDrvId.tryFrom value = some id → SharedDrvId.tryFrom id.storePath = some id
  hashes : ∀ id, SharedDrvId.tryFrom value = some id →
    ∃ hash rest, id.drvHash = some hash ∧ id.text.toList = hash ++ rest ∧ byteLen hash = 32

/-- The copy of the server takes the text in each way as the shared type does. -/
structure IdentifiersExact (value : String) : Prop extends TryFromExact value where
  copies : ∀ way ∈ ServerDrvId.ways, (way value).map ServerDrvId.text = (SharedDrvId.tryFrom value).map SharedDrvId.text

section Bytes

variable {text : List Char}

theorem narrow_of_isValidNameChar {c : Char} (valid : isValidNameChar c = true) : c.val.toNat < 128 := by
  have ends : 'z'.val.toNat < 128 ∧ 'Z'.val.toNat < 128 ∧ '9'.val.toNat < 128 := by decide
  rw [isValidNameChar, decide_eq_true_eq] at valid
  obtain ⟨-, below⟩ | ⟨-, below⟩ | ⟨-, below⟩ | mark := valid
  · exact lt_of_le_of_lt (UInt32.le_iff_toNat_le.mp below) ends.1
  · exact lt_of_le_of_lt (UInt32.le_iff_toNat_le.mp below) ends.2.1
  · exact lt_of_le_of_lt (UInt32.le_iff_toNat_le.mp below) ends.2.2
  · have small : (['+', '-', '.', '_', '?', '='].all fun c : Char => decide (c.val.toNat < 128)) = true := by decide
    exact of_decide_eq_true (List.all_eq_true.mp small c mark)

theorem narrow_of_isValidNameByte {b : UInt8} (valid : isValidNameByte b = true) : b.toNat < 128 := by
  rcases Bool.or_eq_true_iff.mp valid with letter | mark
  · exact narrow_of_isAsciiAlphanumeric letter
  · have small : ((utf8Bytes "+-._?=".toList).all fun b => decide (b.toNat < 128)) = true := by decide
    exact of_decide_eq_true (List.all_eq_true.mp small b (List.contains_iff_mem.mp mark))

theorem all_isValidNameByte : (utf8Bytes text).all isValidNameByte = true ↔ ∀ c ∈ text, isValidNameChar c = true := by
  rw [all_utf8Bytes (sameTest_of_narrow (fun b => narrow_of_isValidNameByte) (fun c => narrow_of_isValidNameChar)
    (by decide)), List.all_eq_true]

theorem narrow_of_mem_alphabet {c : Char} (member : c ∈ nixBase32Alphabet) : c.val.toNat < 128 := by
  have letters : (nixBase32Alphabet.all fun c => decide (c.val.toNat < 128)) = true := by decide
  exact of_decide_eq_true (List.all_eq_true.mp letters c member)

theorem all_nixBase32Bytes :
    (utf8Bytes text).all nixBase32Bytes.contains = true ↔ ∀ c ∈ text, c ∈ nixBase32Alphabet := by
  have same : SameTest nixBase32Bytes.contains nixBase32Alphabet.contains :=
    sameTest_contains fun _ => narrow_of_mem_alphabet
  rw [all_utf8Bytes same, List.all_eq_true]
  exact forall₂_congr fun c _ => List.contains_iff_mem

theorem byteLen_of_alphabet (letters : ∀ c ∈ text, c ∈ nixBase32Alphabet) : byteLen text = text.length :=
  byteLen_of_narrow fun c member => utf8Size_of_narrow (narrow_of_mem_alphabet (letters c member))

end Bytes

section Grammar

variable {value id part : List Char}

theorem dash_not_mem_of_alphabet {hash : List Char} (letters : ∀ c ∈ hash, c ∈ nixBase32Alphabet) : '-' ∉ hash :=
  fun member => absurd (letters '-' member) (by decide)

theorem stripStorePath_eq_self (inside : '/' ∉ value) : stripStorePath value = value := by
  have kept : ∀ c ∈ value, decide (c ≠ '/') = true := fun c member =>
    decide_eq_true fun same => inside (by rwa [← same])
  exact List.rtakeWhile_eq_self_iff.mpr kept

theorem afterLastSlash_iff : AfterLastSlash value part ↔ part = stripStorePath value := by
  constructor
  · rintro ⟨inside, rfl | ⟨front, rfl⟩⟩
    · exact (stripStorePath_eq_self inside).symm
    · have kept : ∀ c ∈ part.reverse, decide (c ≠ '/') = true := fun c member =>
        decide_eq_true fun same => inside (by rw [← same]; exact List.mem_reverse.mp member)
      rw [stripStorePath, List.rtakeWhile, List.reverse_append, List.reverse_cons, List.append_assoc,
        List.takeWhile_append_of_pos kept]
      simp
  · rintro rfl
    have free : '/' ∉ stripStorePath value := by
      intro member
      have other := List.mem_takeWhile_imp (List.mem_reverse.mp member)
      exact of_decide_eq_true other rfl
    refine ⟨free, ?_⟩
    by_cases slash : '/' ∈ value
    · obtain ⟨after, before, split, outside⟩ := List.eq_append_cons_of_mem (List.mem_reverse.mpr slash)
      right
      have whole : value = before.reverse ++ '/' :: after.reverse := by
        rw [← value.reverse_reverse, split]
        simp
      have kept : ∀ c ∈ after, decide (c ≠ '/') = true := fun c member =>
        decide_eq_true fun same => outside (by rwa [← same])
      refine ⟨before.reverse, ?_⟩
      rw [stripStorePath, List.rtakeWhile, split, List.takeWhile_append_of_pos kept]
      simpa using whole
    · exact .inl (stripStorePath_eq_self slash).symm

theorem checkedName_eq_some_iff : checkedName value = some id ↔ id = stripStorePath value ∧ IsIdentifier id := by
  constructor
  · intro found
    rw [checkedName] at found
    split at found
    · cases found
    next length =>
      split at found
      · cases found
      next stem extension split =>
        obtain ⟨whole, -⟩ := rsplitOnce_eq_some_iff.mp split
        by_cases drv : extension = "drv".toList
        · rw [if_neg (not_not.mpr drv)] at found
          split at found
          · cases found
          next hash name cut =>
            obtain ⟨stems, -⟩ := splitOnce_eq_some_iff.mp cut
            simp only [Option.ite_none_left_eq_some, Bool.not_eq_true', Bool.not_eq_false, not_not,
              Option.some.injEq, not_or] at found
            obtain ⟨⟨-, named⟩, size, letters, chars, rfl⟩ := found
            have letters := all_nixBase32Bytes.mp letters
            refine ⟨rfl, Nat.not_lt.mp (not_or.mp length).2, hash, name, ?_, ?_, letters, named, all_isValidNameByte.mp chars⟩
            · rw [whole, stems, drv]
              rfl
            · rw [← byteLen_of_alphabet letters, size]
        · rw [if_pos drv] at found
          cases found
  · rintro ⟨same, short, hash, name, whole, size, letters, named, chars⟩
    rw [whole] at same short ⊢
    rw [checkedName, ← same]
    have stem : rsplitOnce '.' (hash ++ '-' :: name ++ ".drv".toList) = some (hash ++ '-' :: name, "drv".toList) :=
      rsplitOnce_append (by decide) _
    have cut : splitOnce '-' (hash ++ '-' :: name) = some (hash, name) := splitOnce_append (dash_not_mem_of_alphabet letters) _
    have some : hash ≠ [] := by
      rintro rfl
      cases size
    have nonempty : hash ++ '-' :: name ++ ".drv".toList ≠ [] := List.append_ne_nil_of_right_ne_nil _ (by decide)
    have within : ¬ drvIdMaxLen < byteLen (hash ++ '-' :: name ++ ".drv".toList) := Nat.not_lt.mpr short
    rw [if_neg (not_or.mpr ⟨nonempty, within⟩), stem]
    dsimp only
    rw [if_neg (not_not.mpr rfl), cut]
    dsimp only
    rw [if_neg (not_or.mpr ⟨some, named⟩), if_neg (not_not.mpr ((byteLen_of_alphabet letters).trans size)),
      all_nixBase32Bytes.mpr letters, all_isValidNameByte.mpr chars]
    rfl

theorem slash_not_mem_of_isIdentifier (valid : IsIdentifier id) : '/' ∉ id := by
  obtain ⟨hash, name, rfl, -, letters, -, chars⟩ := valid.parts
  simp only [List.mem_append, List.mem_cons, not_or]
  refine ⟨⟨fun member => absurd (letters _ member) (by decide), by decide, fun member => ?_⟩, by decide⟩
  exact absurd (chars _ member) (by decide)

theorem stripStorePath_of_isIdentifier (valid : IsIdentifier id) : stripStorePath id = id :=
  (afterLastSlash_iff.mp ⟨slash_not_mem_of_isIdentifier valid, .inl rfl⟩).symm

end Grammar

namespace SharedDrvId

variable {value : String} {id : SharedDrvId}

theorem tryFrom_eq_some_iff :
    tryFrom value = some id ↔ id.text.toList = stripStorePath value.toList ∧ IsIdentifier id.text.toList := by
  rw [tryFrom, Option.map_eq_some_iff]
  constructor
  · rintro ⟨kept, checked, rfl⟩
    obtain ⟨same, valid⟩ := checkedName_eq_some_iff.mp checked
    rw [String.toList_ofList]
    exact ⟨same, valid⟩
  · intro grammar
    exact ⟨_, checkedName_eq_some_iff.mpr grammar, by rw [String.ofList_toList]⟩

theorem tryFrom_storePath (valid : IsIdentifier id.text.toList) : tryFrom id.storePath = some id := by
  refine tryFrom_eq_some_iff.mpr ⟨afterLastSlash_iff.mp ⟨slash_not_mem_of_isIdentifier valid, .inr ?_⟩, valid⟩
  refine ⟨"/nix/store".toList, ?_⟩
  rw [storePath, String.toList_append]
  rfl

theorem drvHash_eq (valid : IsIdentifier id.text.toList) :
    ∃ hash rest, id.drvHash = some hash ∧ id.text.toList = hash ++ rest ∧ byteLen hash = 32 := by
  obtain ⟨hash, name, whole, size, letters, -⟩ := valid.parts
  have bytes : byteLen hash = 32 := (byteLen_of_alphabet letters).trans size
  have whole : id.text.toList = hash ++ ('-' :: name ++ ".drv".toList) := by rw [whole, List.append_assoc]
  exact ⟨hash, _, sliceTo_eq_some_iff.mpr ⟨_, whole, bytes⟩, whole, bytes⟩

theorem tryFromExact (value : String) : TryFromExact value where
  accepts id := by rw [tryFrom_eq_some_iff, afterLastSlash_iff]
  parses := rfl
  again _ accepted := tryFrom_storePath (tryFrom_eq_some_iff.mp accepted).2
  hashes _ accepted := drvHash_eq (tryFrom_eq_some_iff.mp accepted).2

end SharedDrvId

theorem byteLen_parts {hash name : List Char} (letters : ∀ c ∈ hash, c ∈ nixBase32Alphabet)
    (chars : ∀ c ∈ name, isValidNameChar c = true) :
    byteLen (hash ++ '-' :: name ++ ".drv".toList) = (hash ++ '-' :: name ++ ".drv".toList).length := by
  refine byteLen_of_narrow fun c member => utf8Size_of_narrow ?_
  rcases List.mem_append.mp member with inside | ending
  · rcases List.mem_append.mp inside with inHash | later
    · exact narrow_of_mem_alphabet (letters c inHash)
    · rcases List.mem_cons.mp later with rfl | inName
      · decide
      · exact narrow_of_isValidNameChar (chars c inName)
  · have small : (".drv".toList.all fun c => decide (c.val.toNat < 128)) = true := by decide
    exact of_decide_eq_true (List.all_eq_true.mp small c ending)

theorem take_stem (front : List Char) : (front ++ ".drv".toList).take ((front ++ ".drv".toList).length - 4) = front := by
  rw [List.length_append]
  exact List.take_left

theorem isDrvId_iff {id : List Char} : isDrvId id = true ↔ IsIdentifier id := by
  constructor
  · intro valid
    rw [isDrvId, Bool.and_eq_true, Bool.and_eq_true, decide_eq_true_eq] at valid
    obtain ⟨⟨short, ending⟩, stem⟩ := valid
    obtain ⟨front, rfl⟩ := List.isSuffixOf_iff_suffix.mp ending
    rw [take_stem, isHashAndName] at stem
    split at stem
    · cases stem
    next dash name rest =>
      simp only [Bool.and_eq_true, List.all_eq_true, decide_eq_true_eq] at stem
      obtain ⟨⟨⟨named, size⟩, letters⟩, chars⟩ := stem
      have first := List.head_dropWhile_not (p := fun c : Char => decide (c ≠ '-')) (l := front) (by rw [rest]; simp)
      simp only [rest, List.head_cons, decide_eq_false_iff_not, not_not] at first
      have whole : front = front.takeWhile (· ≠ '-') ++ '-' :: name := by
        rw [first] at rest
        rw [← rest, List.takeWhile_append_dropWhile]
      rw [whole] at short ⊢
      exact ⟨by rwa [byteLen_parts letters chars], _, name, rfl, size, letters, named, chars⟩
  · rintro ⟨short, hash, name, rfl, size, letters, named, chars⟩
    have free : ∀ c ∈ hash, decide (c ≠ '-') = true := fun c member =>
      decide_eq_true fun same => dash_not_mem_of_alphabet letters (by rwa [← same])
    have before : (hash ++ '-' :: name).takeWhile (· ≠ '-') = hash := by
      rw [List.takeWhile_append_of_pos free]
      simp
    have after : (hash ++ '-' :: name).dropWhile (· ≠ '-') = '-' :: name := by
      rw [List.dropWhile_append_of_pos free]
      simp
    rw [byteLen_parts letters chars] at short
    rw [isDrvId, take_stem, isHashAndName, before, after]
    simp only [Bool.and_eq_true, List.all_eq_true, decide_eq_true_eq]
    exact ⟨⟨short, List.isSuffixOf_iff_suffix.mpr ⟨_, rfl⟩⟩, ⟨⟨named, size⟩, letters⟩, chars⟩

theorem DrvIdentifier.tryFrom_eq (value : String) :
    (DrvIdentifier.tryFrom value).map DrvIdentifier.text = (SharedDrvId.tryFrom value).map SharedDrvId.text := by
  cases read : SharedDrvId.tryFrom value with
  | none =>
    rw [DrvIdentifier.tryFrom, dif_neg]
    · rfl
    · intro valid
      rw [String.toList_ofList] at valid
      have accepted : SharedDrvId.tryFrom value = some ⟨String.ofList (stripStorePath value.toList)⟩ := by
        refine SharedDrvId.tryFrom_eq_some_iff.mpr ?_
        rw [String.toList_ofList]
        exact ⟨rfl, isDrvId_iff.mp valid⟩
      rw [read] at accepted
      cases accepted
  | some id =>
    obtain ⟨same, valid⟩ := SharedDrvId.tryFrom_eq_some_iff.mp read
    have kept : String.ofList (stripStorePath value.toList) = id.text := by rw [← same, String.ofList_toList]
    have valid : isDrvId id.text.toList = true := isDrvId_iff.mpr valid
    simp only [DrvIdentifier.tryFrom, kept, valid, dite_true, Option.map_some]

/-- Both copies keep the grammar where a text is parsed. The rows and the JSON of the server are
taken as they are, which is the same only for the texts that are identifiers. -/
theorem identifiersExact_iff (value : String) :
    TryFromExact value ∧ (IdentifiersExact value ↔ IsIdentifier value.toList) := by
  refine ⟨SharedDrvId.tryFromExact value, fun exact => ?_, fun valid => ⟨SharedDrvId.tryFromExact value, ?_⟩⟩
  · have row := exact.copies ServerDrvId.fromRow (by simp [ServerDrvId.ways])
    cases read : SharedDrvId.tryFrom value with
    | none =>
      rw [read] at row
      cases row
    | some id =>
      rw [read] at row
      have same : value = id.text := Option.some.inj row
      rw [same]
      exact (SharedDrvId.tryFrom_eq_some_iff.mp read).2
  · have read : SharedDrvId.tryFrom value = some ⟨value⟩ :=
      SharedDrvId.tryFrom_eq_some_iff.mpr ⟨(stripStorePath_of_isIdentifier valid).symm, valid⟩
    have server : ServerDrvId.tryFrom value = some ⟨value⟩ := by
      obtain ⟨kept, checked, same⟩ := Option.map_eq_some_iff.mp read
      cases same
      rw [ServerDrvId.tryFrom, checked]
      rfl
    intro way listed
    rw [read]
    simp only [ServerDrvId.ways, List.mem_cons, List.not_mem_nil, or_false] at listed
    obtain rfl | rfl | rfl | rfl | rfl := listed
    · rw [server]
      rfl
    · rw [ServerDrvId.fromStr, server]
      rfl
    · rw [ServerDrvId.decode, server]
      rfl
    · rfl
    · rfl

/-- The empty string in a JSON text becomes an identifier. -/
theorem empty_not_identifiersExact : ¬ ∀ value, IdentifiersExact value := by
  intro always
  have row := (always "").copies (fun value => ServerDrvId.deserialize (.str value)) (by simp [ServerDrvId.ways])
  have none : SharedDrvId.tryFrom "" = none := by decide
  rw [none] at row
  cases row

end EkaCI
