import Mathlib.Data.List.DropRight

/-! Derivation identifiers of the form `hash-name.drv`. The tables hold them without the
path of a store; what nix is asked about is the path. -/

namespace EkaCI

def nixBase32Alphabet : List Char := "0123456789abcdfghijklmnpqrsvwxyz".toList

def drvIdMaxLen : Nat := 211

/-- The characters of the name of a store path. -/
def isValidNameChar (c : Char) : Bool :=
  'a' ≤ c ∧ c ≤ 'z' ∨ 'A' ≤ c ∧ c ≤ 'Z' ∨ '0' ≤ c ∧ c ≤ '9' ∨ c ∈ ['+', '-', '.', '_', '?', '=']

def stripStorePath (path : List Char) : List Char := path.rtakeWhile (· ≠ '/')

/-- The part before the first `-` and the part after it. -/
def isHashAndName (stem : List Char) : Bool :=
  let hash := stem.takeWhile (· ≠ '-')
  match stem.dropWhile (· ≠ '-') with
  | [] => false
  | _ :: name =>
    name ≠ [] && hash.length = 32 && hash.all (· ∈ nixBase32Alphabet) && name.all isValidNameChar

def isDrvId (id : List Char) : Bool :=
  id.length ≤ drvIdMaxLen && ".drv".toList.isSuffixOf id && isHashAndName (id.take (id.length - 4))

/-- The text that has passed the checks. -/
structure DrvIdentifier where
  text : String
  valid : isDrvId text.toList = true
  deriving DecidableEq

namespace DrvIdentifier

def tryFrom (value : String) : Option DrvIdentifier :=
  let id := String.ofList (stripStorePath value.toList)
  if valid : isDrvId id.toList = true then some ⟨id, valid⟩ else none

def storePath (drv : DrvIdentifier) : String := "/nix/store/" ++ drv.text

end DrvIdentifier

theorem slash_not_valid : isValidNameChar '/' = false ∧ '/' ∉ nixBase32Alphabet := by decide

theorem slash_not_mem_of_isHashAndName {stem : List Char} (valid : isHashAndName stem = true) : '/' ∉ stem := by
  rw [isHashAndName] at valid
  intro member
  rw [← List.takeWhile_append_dropWhile (p := fun c : Char => decide (c ≠ '-')) (l := stem)] at member
  split at valid
  · cases valid
  · rename_i dash name rest
    simp only [Bool.and_eq_true, List.all_eq_true, decide_eq_true_eq] at valid
    obtain ⟨⟨-, hash⟩, named⟩ := valid
    rcases List.mem_append.mp member with inHash | later
    · exact slash_not_valid.2 (hash '/' inHash)
    · rw [rest] at later
      rcases List.mem_cons.mp later with same | inName
      · have first := List.head_dropWhile_not (p := fun c : Char => decide (c ≠ '-')) (l := stem) (by rw [rest]; simp)
        simp only [rest, List.head_cons, ← same] at first
        exact absurd first (by decide)
      · have valid := named '/' inName
        rw [slash_not_valid.1] at valid
        cases valid

variable (drv : DrvIdentifier)

theorem DrvIdentifier.slash_not_mem : '/' ∉ drv.text.toList := by
  have valid := drv.valid
  rw [isDrvId, Bool.and_eq_true, Bool.and_eq_true] at valid
  obtain ⟨⟨-, ending⟩, stem⟩ := valid
  obtain ⟨start, same⟩ := List.isSuffixOf_iff_suffix.mp ending
  intro member
  rw [← same] at member stem
  rcases List.mem_append.mp member with inStem | inEnding
  · apply slash_not_mem_of_isHashAndName stem
    simpa using inStem
  · exact absurd inEnding (by decide)

theorem DrvIdentifier.storePath_ne (other : DrvIdentifier) : other.text ≠ drv.storePath := by
  intro same
  apply other.slash_not_mem
  rw [same, DrvIdentifier.storePath, String.toList_append]
  exact List.mem_append_left _ (by decide)

theorem DrvIdentifier.stripStorePath_storePath : stripStorePath drv.storePath.toList = drv.text.toList := by
  have named : ∀ c ∈ drv.text.toList.reverse, decide (c ≠ '/') = true := by
    intro c member
    refine decide_eq_true fun same => drv.slash_not_mem ?_
    rw [← same]
    exact List.mem_reverse.mp member
  have path : drv.storePath.toList = "/nix/store".toList ++ '/' :: drv.text.toList := by
    simp [storePath, String.toList_append]
  rw [stripStorePath, List.rtakeWhile, path, List.reverse_append, List.reverse_cons, List.append_assoc,
    List.takeWhile_append_of_pos named]
  simp

theorem DrvIdentifier.tryFrom_storePath : tryFrom drv.storePath = some drv := by
  have kept : String.ofList (stripStorePath drv.storePath.toList) = drv.text := by
    rw [drv.stripStorePath_storePath, String.ofList_toList]
  simp only [tryFrom, kept, drv.valid, dite_true]

theorem DrvIdentifier.tryFrom_text : tryFrom drv.text = some drv := by
  have named : ∀ c ∈ drv.text.toList, decide (c ≠ '/') = true := fun c member =>
    decide_eq_true fun same => drv.slash_not_mem (same ▸ member)
  have stripped : stripStorePath drv.text.toList = drv.text.toList := List.rtakeWhile_eq_self_iff.mpr named
  have kept : String.ofList (stripStorePath drv.text.toList) = drv.text := by
    rw [stripped, String.ofList_toList]
  simp only [tryFrom, kept, drv.valid, dite_true]

end EkaCI
