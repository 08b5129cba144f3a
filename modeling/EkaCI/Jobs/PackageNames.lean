import EkaCI.Jobs.PackageRows
import EkaCI.Lib.ByteSlices

/-! How the name of a derivation is split into the name of a package and its version, and
how the same is done with the name of a store path. -/

namespace EkaCI.NameParts

open Lib

def storePrefix : List Char := "/nix/store/".toList

/-- The function of the server, with a copy of the test for versions. -/
def extractPname (storePath : List Char) : Option String :=
  let namePart := if storePrefix.isPrefixOf storePath then storePath.drop storePrefix.length else storePath
  if byteLen namePart ≤ 33 then some (String.ofList namePart)
  else
    match sliceFrom 33 namePart with
    | none => none
    | some name =>
      if (parts (String.ofList name)).length = 1 then some (String.ofList name)
      else
        (firstVersion (String.ofList name)).map fun keep =>
          if keep = 0 then String.ofList name else join ((parts (String.ofList name)).take keep)

/-- The three functions return, and what they return fits together. -/
structure SplitsWell (name : String) : Prop where
  splits : ∃ pname version, pnameFromName name = some pname ∧ versionFromName name = some version ∧
    (version.isSome = true ↔ pname ≠ name) ∧ (∀ text, version = some text → name = pname ++ "-" ++ text) ∧
    pnameFromName pname = some pname
  extracts : name ≠ "" → ∀ hash : List Char, hash.length = 32 → (∀ c ∈ hash, c.utf8Size = 1) →
    (extractPname (storePrefix ++ hash ++ '-' :: name.toList)).isSome = true ∧
      extractPname (storePrefix ++ hash ++ '-' :: name.toList) = pnameFromName name

/-- There is a dash, and before the parts at the end that look like versions there is a part
that is one character of several bytes. -/
def MeetsLoneCharacter (name : String) : Prop :=
  ∃ front character versions, parts name = front ++ [character] :: versions ∧ front.length + versions.length ≠ 0 ∧
    2 ≤ character.utf8Size ∧ ∀ part ∈ versions, looksLikeVersion part = some true

section Parts

variable {name : String} {reversed : List (List Char)} {keep count : Nat}

theorem looksLikeVersion_eq_none {part : List Char} :
    looksLikeVersion part = none ↔ ∃ character, part = [character] ∧ 2 ≤ character.utf8Size := by
  match part with
  | [] => simp [looksLikeVersion]
  | [character] =>
    rw [looksLikeVersion]
    split
    next narrow =>
      refine iff_of_false (by simp) ?_
      rintro ⟨other, same, wide⟩
      cases same
      exact Nat.not_lt.mpr wide narrow
    next wide => exact iff_of_true rfl ⟨character, rfl, Nat.not_lt.mp wide⟩
  | _ :: _ :: _ => simp [looksLikeVersion]

theorem countVersions_eq_none : countVersions reversed = none ↔ ∃ versions character rest,
    reversed = versions ++ [character] :: rest ∧ 2 ≤ character.utf8Size ∧
      ∀ part ∈ versions, looksLikeVersion part = some true := by
  induction reversed with
  | nil => simp [countVersions]
  | cons part rest ih =>
    rw [countVersions]
    cases looks : looksLikeVersion part with
    | none =>
      obtain ⟨character, rfl, wide⟩ := looksLikeVersion_eq_none.mp looks
      exact iff_of_true rfl ⟨[], character, rest, rfl, wide, List.forall_mem_nil _⟩
    | some versioned =>
      cases versioned with
      | false =>
        refine iff_of_false (by simp) ?_
        rintro ⟨versions, character, after, split, wide, all⟩
        cases versions with
        | nil =>
          cases split
          rw [looksLikeVersion_eq_none.mpr ⟨character, rfl, wide⟩] at looks
          cases looks
        | cons first more =>
          cases split
          rw [all part List.mem_cons_self] at looks
          cases looks
      | true =>
        dsimp only
        rw [Option.map_eq_none_iff, ih]
        constructor
        · rintro ⟨versions, character, after, rfl, wide, all⟩
          refine ⟨part :: versions, character, after, rfl, wide, fun other member => ?_⟩
          rcases List.mem_cons.mp member with rfl | later
          · exact looks
          · exact all other later
        · rintro ⟨versions, character, after, split, wide, all⟩
          cases versions with
          | nil =>
            cases split
            rw [looksLikeVersion_eq_none.mpr ⟨character, rfl, wide⟩] at looks
            cases looks
          | cons first more =>
            cases split
            exact ⟨more, character, after, rfl, wide, fun other member => all other (List.mem_cons_of_mem _ member)⟩

theorem countVersions_eq_some (counted : countVersions reversed = some count) : count ≤ reversed.length ∧
    ∀ part, (reversed.drop count).head? = some part → looksLikeVersion part = some false := by
  induction reversed generalizing count with
  | nil =>
    cases counted
    exact ⟨le_refl _, fun _ first => nomatch first⟩
  | cons part rest ih =>
    rw [countVersions] at counted
    cases looks : looksLikeVersion part with
    | none =>
      rw [looks] at counted
      cases counted
    | some versioned =>
      rw [looks] at counted
      cases versioned with
      | false =>
        cases counted
        refine ⟨Nat.zero_le _, fun other first => ?_⟩
        cases first
        exact looks
      | true =>
        obtain ⟨fewer, later, rfl⟩ := Option.map_eq_some_iff.mp counted
        obtain ⟨bound, first⟩ := ih later
        exact ⟨Nat.succ_le_succ bound, first⟩

theorem join_parts : join (parts name) = name := by
  rw [join, parts, List.intercalate_splitOn, String.ofList_toList]

theorem parts_join {kept : List (List Char)} (nonempty : kept ≠ []) (whole : ∀ part ∈ kept, part ∈ parts name) :
    parts (join kept) = kept := by
  rw [parts, join, String.toList_ofList]
  exact List.splitOn_intercalate '-' (fun part member => not_mem_of_mem_splitOn (whole part member)) nonempty

theorem join_append {front back : List (List Char)} (some : front ≠ []) (more : back ≠ []) :
    join (front ++ back) = join front ++ "-" ++ join back := by
  rw [← String.toList_inj]
  simp only [join, String.toList_append, String.toList_ofList]
  induction front with
  | nil => exact absurd rfl some
  | cons first rest ih =>
    rw [List.cons_append, List.intercalate_cons_of_ne_nil (List.append_ne_nil_of_right_ne_nil _ more)]
    by_cases last : rest = []
    · have dash : "-".toList = ['-'] := rfl
      rw [last, List.intercalate_singleton, List.nil_append, List.append_assoc, dash, List.append_assoc]
    · rw [ih last, List.intercalate_cons_of_ne_nil last]
      simp only [List.append_assoc]

theorem length_parts_pos : 0 < (parts name).length := List.length_pos_iff.mpr (List.splitOn_ne_nil _ _)

theorem firstVersion_eq_some (found : firstVersion name = some keep) : keep ≤ (parts name).length ∧
    ∀ part, ((parts name).take keep).getLast? = some part → looksLikeVersion part = some false := by
  obtain ⟨count, counted, rfl⟩ := Option.map_eq_some_iff.mp found
  obtain ⟨-, first⟩ := countVersions_eq_some counted
  refine ⟨Nat.sub_le _ _, fun part last => first part ?_⟩
  rw [List.drop_reverse, List.head?_reverse]
  exact last

theorem pnameFromName_take (found : firstVersion name = some keep) (positive : keep ≠ 0) :
    pnameFromName (join ((parts name).take keep)) = some (join ((parts name).take keep)) := by
  obtain ⟨bound, last⟩ := firstVersion_eq_some found
  have nonempty : (parts name).take keep ≠ [] := by
    rw [← List.length_pos_iff, List.length_take]
    have := @length_parts_pos name
    omega
  have split : parts (join ((parts name).take keep)) = (parts name).take keep :=
    parts_join nonempty fun part member => List.mem_of_mem_take member
  rw [pnameFromName]
  split
  · rfl
  · have counted : countVersions ((parts name).take keep).reverse = some 0 := by
      obtain ⟨part, ends⟩ : ∃ part, ((parts name).take keep).getLast? = some part :=
        ⟨_, List.getLast?_eq_some_getLast nonempty⟩
      obtain ⟨front, whole⟩ := List.getLast?_eq_some_iff.mp ends
      rw [whole, List.reverse_append, List.reverse_singleton, List.singleton_append, countVersions, last part ends]
    rw [firstVersion, split, counted]
    simp only [Option.map_some, Nat.sub_zero, List.take_length]
    rw [if_neg (List.length_pos_iff.mpr nonempty).ne']

theorem firstVersion_eq_none : firstVersion name = none ↔ ∃ front character versions,
    parts name = front ++ [character] :: versions ∧ 2 ≤ character.utf8Size ∧
      ∀ part ∈ versions, looksLikeVersion part = some true := by
  rw [firstVersion, Option.map_eq_none_iff, countVersions_eq_none]
  constructor
  · rintro ⟨versions, character, rest, split, wide, all⟩
    refine ⟨rest.reverse, character, versions.reverse, ?_, wide, fun part member => all part (List.mem_reverse.mp member)⟩
    have split := congrArg List.reverse split
    rw [List.reverse_reverse] at split
    rw [split]
    simp
  · rintro ⟨front, character, versions, split, wide, all⟩
    refine ⟨versions.reverse, character, front.reverse, ?_, wide, fun part member => all part (List.mem_reverse.mp member)⟩
    rw [split]
    simp

theorem meetsLoneCharacter_iff : MeetsLoneCharacter name ↔ (parts name).length ≠ 1 ∧ firstVersion name = none := by
  rw [firstVersion_eq_none]
  constructor
  · rintro ⟨front, character, versions, split, more, wide, all⟩
    refine ⟨?_, front, character, versions, split, wide, all⟩
    rw [split, List.length_append, List.length_cons]
    omega
  · rintro ⟨several, front, character, versions, split, wide, all⟩
    refine ⟨front, character, versions, split, ?_, wide, all⟩
    rw [split, List.length_append, List.length_cons] at several
    omega

theorem ne_of_append_dash {pname version : String} (split : name = pname ++ "-" ++ version) : pname ≠ name := by
  intro same
  have longer := congrArg (fun text => text.toList.length) (same.trans split)
  simp only [String.toList_append, List.length_append] at longer
  have dash : "-".toList.length = 1 := rfl
  omega

theorem splits_of_readable (apart : ¬ MeetsLoneCharacter name) : ∃ pname version,
    pnameFromName name = some pname ∧ versionFromName name = some version ∧
      (version.isSome = true ↔ pname ≠ name) ∧ (∀ text, version = some text → name = pname ++ "-" ++ text) ∧
        pnameFromName pname = some pname := by
  by_cases single : (parts name).length = 1
  · have whole : pnameFromName name = some name := by rw [pnameFromName, if_pos single]
    exact ⟨name, none, whole, by rw [versionFromName, if_pos single], by simp, by simp, whole⟩
  · obtain ⟨keep, found⟩ : ∃ keep, firstVersion name = some keep := by
      rw [← Option.ne_none_iff_exists']
      exact fun none => apart (meetsLoneCharacter_iff.mpr ⟨single, none⟩)
    have bound := (firstVersion_eq_some found).1
    have pname : pnameFromName name = some (if keep = 0 then name else join ((parts name).take keep)) := by
      rw [pnameFromName, if_neg single, found]
      rfl
    have version : versionFromName name =
        some (if keep = 0 ∨ keep = (parts name).length then none else some (join ((parts name).drop keep))) := by
      rw [versionFromName, if_neg single, found]
      rfl
    by_cases none : keep = 0
    · rw [if_pos none] at pname
      rw [if_pos (.inl none)] at version
      exact ⟨name, _, pname, version, by simp, by simp, pname⟩
    · rw [if_neg none] at pname
      by_cases all : keep = (parts name).length
      · rw [if_pos (.inr all)] at version
        have whole : join ((parts name).take keep) = name := by rw [all, List.take_length, join_parts]
        rw [whole] at pname
        exact ⟨name, _, pname, version, by simp, by simp, pname⟩
      · rw [if_neg (not_or.mpr ⟨none, all⟩)] at version
        have split : name = join ((parts name).take keep) ++ "-" ++ join ((parts name).drop keep) := by
          rw [← join_append, List.take_append_drop, join_parts]
          · rw [← List.length_pos_iff, List.length_take]
            omega
          · rw [← List.length_pos_iff, List.length_drop]
            omega
        refine ⟨_, _, pname, version, iff_of_true rfl (ne_of_append_dash split), ?_, pnameFromName_take found none⟩
        intro text same
        rw [← Option.some.inj same]
        exact split

theorem extractPname_eq {hash : List Char} (nonempty : name ≠ "") (hashed : hash.length = 32)
    (narrow : ∀ c ∈ hash, c.utf8Size = 1) :
    extractPname (storePrefix ++ hash ++ '-' :: name.toList) = pnameFromName name := by
  have front : ∀ c ∈ hash ++ ['-'], c.utf8Size = 1 := by
    intro c member
    rcases List.mem_append.mp member with inside | last
    · exact narrow c inside
    · rw [List.mem_singleton.mp last]
      rfl
  have stripped : (if storePrefix.isPrefixOf (storePrefix ++ hash ++ '-' :: name.toList) then
      (storePrefix ++ hash ++ '-' :: name.toList).drop storePrefix.length
      else storePrefix ++ hash ++ '-' :: name.toList) = (hash ++ ['-']) ++ name.toList := by
    rw [if_pos (List.isPrefixOf_iff_prefix.mpr (List.append_assoc .. ▸ List.prefix_append _ _)), List.append_assoc,
      List.drop_left, List.append_assoc, List.singleton_append]
  have long : ¬ byteLen ((hash ++ ['-']) ++ name.toList) ≤ 33 := by
    have own : 0 < byteLen name.toList := by
      cases letters : name.toList with
      | nil => exact absurd (String.toList_eq_nil_iff.mp letters) nonempty
      | cons c rest =>
        rw [byteLen_cons]
        exact Nat.lt_of_lt_of_le c.utf8Size_pos (Nat.le_add_right _ _)
    have start : byteLen (hash ++ ['-']) = 33 := by
      rw [byteLen_of_narrow front, List.length_append, hashed]
      rfl
    rw [byteLen_append]
    omega
  have sliced : sliceFrom 33 ((hash ++ ['-']) ++ name.toList) = some name.toList := by
    have length : byteLen (hash ++ ['-']) = 33 := by
      rw [byteLen_of_narrow front, List.length_append, hashed]
      rfl
    rw [← length]
    exact sliceFrom_append _ _
  rw [extractPname]
  simp only [stripped, if_neg long, sliced, String.ofList_toList]
  rfl

theorem extractPname_isSome {storePath : List Char} (ascii : ∀ c ∈ storePath, c.utf8Size < 2) :
    (extractPname storePath).isSome = true := by
  have narrow : ∀ text : List Char, text <:+ storePath → ∀ c ∈ text, c.utf8Size = 1 := by
    intro text suffix c member
    have own := c.utf8Size_pos
    have short := ascii c (suffix.subset member)
    omega
  have inside : (if storePrefix.isPrefixOf storePath then storePath.drop storePrefix.length else storePath) <:+
      storePath := by
    split
    · exact List.drop_suffix _ _
    · exact List.suffix_rfl
  rw [extractPname]
  generalize (if storePrefix.isPrefixOf storePath then storePath.drop storePrefix.length else storePath) = namePart
    at inside
  split
  · rfl
  rename_i long
  have cut : sliceFrom 33 namePart = some (namePart.drop 33) := by
    have whole := byteLen_of_narrow (narrow namePart inside)
    refine sliceFrom_eq_some_iff.mpr ⟨namePart.take 33, (List.take_append_drop 33 namePart).symm, ?_⟩
    rw [byteLen_of_narrow fun c member => narrow namePart inside c (List.mem_of_mem_take member), List.length_take]
    omega
  rw [cut]
  dsimp only
  have below : ∀ c ∈ (String.ofList (namePart.drop 33)).toList, c.utf8Size < 2 := by
    intro c member
    rw [String.toList_ofList] at member
    exact ascii c (inside.subset (List.mem_of_mem_drop member))
  rcases readable_of_ascii below with single | several
  · rw [if_pos single]
    rfl
  · split
    · rfl
    · rw [Option.isSome_map, several]

end Parts

variable {name : String}

/-- A name is split as it should be, unless its end leads to a part that is one character of
several bytes. -/
theorem splitsWell_iff : SplitsWell name ↔ ¬ MeetsLoneCharacter name := by
  constructor
  · rintro ⟨⟨pname, -, found, -⟩, -⟩ lone
    obtain ⟨several, panics⟩ := meetsLoneCharacter_iff.mp lone
    rw [pnameFromName, if_neg several, panics] at found
    cases found
  · intro apart
    obtain ⟨pname, version, found, rest⟩ := splits_of_readable apart
    refine ⟨⟨pname, version, found, rest⟩, fun nonempty hash hashed narrow => ?_⟩
    rw [extractPname_eq nonempty hashed narrow, found]
    exact ⟨rfl, rfl⟩

/-- A part that is one Greek letter. -/
theorem alphaOne_not_splitsWell : ¬ ∀ name, SplitsWell name := by
  intro always
  obtain ⟨pname, -, found, -⟩ := (always "hello-α").splits
  have panics : pnameFromName "hello-α" = none := by decide
  rw [panics] at found
  cases found

end EkaCI.NameParts
