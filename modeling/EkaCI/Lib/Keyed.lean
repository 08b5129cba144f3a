import Mathlib.Data.List.Induction
import Mathlib.Data.List.Perm.Basic
import Mathlib.Data.List.Nodup
import Mathlib.Order.Lattice

/-! Items with a key, of which the last of a key counts, in the order of their keys. -/

namespace EkaCI.Lib

universe u v w

variable {A : Type u} {B : Type v} {K : Type w}

section Last

variable [DecidableEq K]

def lastOfKey (key : A → K) : List A → List A
  | [] => []
  | item :: rest => if rest.any (key · = key item) then lastOfKey key rest else item :: lastOfKey key rest

def findKey (key : A → K) (items : List A) (wanted : K) : Option A := items.find? (key · = wanted)

variable {key : A → K}
variable {items : List A} {wanted : K} {keyOf : B → K}

theorem lastOfKey_of_nodup (unique : (items.map key).Nodup) : lastOfKey key items = items := by
  induction items with
  | nil => rfl
  | cons item rest ih =>
    obtain ⟨new, unique⟩ := List.nodup_cons.mp unique
    have none : ¬ rest.any (key · = key item) = true := by
      intro found
      obtain ⟨other, member, same⟩ := List.any_eq_true.mp found
      exact new (of_decide_eq_true same ▸ List.mem_map_of_mem member)
    rw [lastOfKey, if_neg none, ih unique]

theorem lastOfKey_sublist (items : List A) : (lastOfKey key items).Sublist items := by
  induction items with
  | nil => exact .slnil
  | cons item rest ih =>
    rw [lastOfKey]
    split
    · exact ih.cons item
    · exact ih.cons_cons item

theorem nodup_lastOfKey (items : List A) : ((lastOfKey key items).map key).Nodup := by
  induction items with
  | nil => exact List.nodup_nil
  | cons item rest ih =>
    rw [lastOfKey]
    split
    · exact ih
    · rename_i last
      refine List.nodup_cons.mpr ⟨fun member => last ?_, ih⟩
      obtain ⟨other, inside, same⟩ := List.mem_map.mp member
      exact List.any_eq_true.mpr ⟨other, (lastOfKey_sublist rest).subset inside, decide_eq_true same⟩

theorem findKey_eq_some_iff (unique : (items.map key).Nodup) {item : A} :
    findKey key items wanted = some item ↔ item ∈ items ∧ key item = wanted := by
  constructor
  · intro found
    exact ⟨List.mem_of_find?_eq_some found, by simpa using List.find?_some found⟩
  · rintro ⟨member, rfl⟩
    cases found : findKey key items (key item) with
    | none => simpa using List.find?_eq_none.mp found item member
    | some other =>
      have same : key other = key item := by simpa using List.find?_some found
      rw [List.inj_on_of_nodup_map unique (List.mem_of_find?_eq_some found) member same]

theorem findKey_eq_none_iff : findKey key items wanted = none ↔ ∀ item ∈ items, key item ≠ wanted := by
  rw [findKey, List.find?_eq_none]
  simp

theorem key_of_findKey {item : A} (found : findKey key items wanted = some item) :
    key item = wanted := by simpa using List.find?_some found

theorem findKey_of_perm {other : List A} (unique : (items.map key).Nodup) (same : items.Perm other) (wanted : K) :
    findKey key items wanted = findKey key other wanted := by
  have unique' : (other.map key).Nodup := (same.map key).nodup_iff.mp unique
  refine Option.ext fun item => ?_
  rw [findKey_eq_some_iff unique, findKey_eq_some_iff unique', same.mem_iff]

theorem findKey_cons (item : A) (rest : List A) (wanted : K) :
    findKey key (item :: rest) wanted = if key item = wanted then some item else findKey key rest wanted := by
  rw [findKey, List.find?_cons]
  split <;> simp_all [findKey]

theorem findKey_append (first second : List A) (wanted : K) :
    findKey key (first ++ second) wanted = (findKey key first wanted).or (findKey key second wanted) := List.find?_append

/-- What is kept of a key is the last item that has it. -/
theorem findKey_lastOfKey (items : List A) (wanted : K) :
    findKey key (lastOfKey key items) wanted = findKey key items.reverse wanted := by
  induction items with
  | nil => rfl
  | cons item rest ih =>
    rw [List.reverse_cons, findKey_append, ← ih, lastOfKey, findKey_cons item []]
    by_cases same : key item = wanted
    · rw [if_pos same]
      split
      · rename_i again
        obtain ⟨other, member, alike⟩ := List.any_eq_true.mp again
        cases found : findKey key (lastOfKey key rest) wanted with
        | some later => rfl
        | none =>
          rw [ih] at found
          exact absurd ((of_decide_eq_true alike).trans same) (findKey_eq_none_iff.mp found other (List.mem_reverse.mpr member))
      · rename_i last
        have none : findKey key (lastOfKey key rest) wanted = none := by
          refine findKey_eq_none_iff.mpr fun other inside alike => last ?_
          exact List.any_eq_true.mpr
            ⟨other, (lastOfKey_sublist rest).subset inside, decide_eq_true (alike.trans same.symm)⟩
        rw [findKey_cons, if_pos same, none, Option.none_or]
    · rw [if_neg same]
      split
      · exact (Option.or_none).symm
      · rw [findKey_cons, if_neg same]
        exact (Option.or_none).symm

/-- What items of different keys give, of one key. -/
theorem filter_flatMap_key {give : A → List B} (unique : (items.map key).Nodup)
    (keeps : ∀ item ∈ items, ∀ given ∈ give item, keyOf given = key item) (wanted : K) :
    (items.flatMap give).filter (keyOf · = wanted) = ((findKey key items wanted).map give).getD [] := by
  induction items with
  | nil => rfl
  | cons item rest ih =>
    obtain ⟨new, unique⟩ := List.nodup_cons.mp unique
    have own := keeps item List.mem_cons_self
    have others := ih unique fun other member => keeps other (List.mem_cons_of_mem _ member)
    rw [List.flatMap_cons, List.filter_append, others, findKey_cons]
    by_cases here : key item = wanted
    · have absent : findKey key rest wanted = none := by
        refine findKey_eq_none_iff.mpr fun other member same => new ?_
        exact here ▸ same ▸ List.mem_map_of_mem member
      have all : (give item).filter (keyOf · = wanted) = give item :=
        List.filter_eq_self.mpr fun given member => by simp [own given member, here]
      rw [absent, all, if_pos here, Option.map_none, Option.getD_none, List.append_nil, Option.map_some, Option.getD_some]
    · have none : (give item).filter (keyOf · = wanted) = [] :=
        List.filter_eq_nil_iff.mpr fun given member => by simp [own given member, here]
      rw [none, if_neg here, List.nil_append]

/-- Lists that agree for each key agree. -/
theorem perm_of_filter_key [DecidableEq B] {first second : List B}
    (agree : ∀ wanted, (first.filter (keyOf · = wanted)).Perm (second.filter (keyOf · = wanted))) :
    first.Perm second := by
  refine List.perm_iff_count.mpr fun item => ?_
  have here := (agree (keyOf item)).count_eq item
  rwa [List.count_filter (by simp), List.count_filter (by simp)] at here

end Last

section Order

variable [LinearOrder K] {key : A → K}

/-- The values of a map that is kept in the order of its keys. -/
def inKeyOrder (key : A → K) (items : List A) : List A := (lastOfKey key items).mergeSort (key · ≤ key ·)

variable {items : List A}

theorem inKeyOrder_perm (unique : (items.map key).Nodup) : (inKeyOrder key items).Perm items := by
  rw [inKeyOrder, lastOfKey_of_nodup unique]
  exact List.mergeSort_perm _ _

theorem nodup_inKeyOrder (items : List A) : ((inKeyOrder key items).map key).Nodup :=
  ((List.mergeSort_perm (lastOfKey key items) _).map key).nodup_iff.mpr (nodup_lastOfKey items)

theorem findKey_inKeyOrder_reverse (items : List A) (wanted : K) :
    findKey key (inKeyOrder key items) wanted = findKey key items.reverse wanted :=
  (findKey_of_perm (nodup_inKeyOrder items) (List.mergeSort_perm _ _) wanted).trans (findKey_lastOfKey items wanted)

theorem findKey_inKeyOrder (unique : (items.map key).Nodup) (wanted : K) :
    findKey key (inKeyOrder key items) wanted = findKey key items wanted :=
  findKey_of_perm (nodup_inKeyOrder items) (inKeyOrder_perm unique) wanted

theorem pairwise_mergeSort_key (key : A → K) (items : List A) :
    (items.mergeSort (key · ≤ key ·)).Pairwise (key · ≤ key ·) := by
  have sorted := @List.pairwise_mergeSort A (fun first second => decide (key first ≤ key second))
    (fun _ _ _ first second => decide_eq_true (le_trans (of_decide_eq_true first) (of_decide_eq_true second)))
    (fun first second => by simpa using le_total (key first) (key second)) items
  exact sorted.imp of_decide_eq_true

theorem pairwise_inKeyOrder (items : List A) : (inKeyOrder key items).Pairwise (key · < key ·) :=
  (pairwise_mergeSort_key key (lastOfKey key items)).imp₂ (fun _ _ le different => lt_of_le_of_ne le different)
    (List.pairwise_map.mp (nodup_inKeyOrder items))

theorem inKeyOrder_self (items : List A) : inKeyOrder key (inKeyOrder key items) = inKeyOrder key items := by
  rw [inKeyOrder, lastOfKey_of_nodup (nodup_inKeyOrder items)]
  exact List.mergeSort_of_pairwise ((pairwise_inKeyOrder items).imp fun less => decide_eq_true less.le)

/-- What items in the order of their keys give is in that order. -/
theorem pairwise_flatMap_key {give : A → List B} {keyOf : B → K} (sorted : items.Pairwise (key · < key ·))
    (keeps : ∀ item ∈ items, ∀ given ∈ give item, keyOf given = key item) :
    (items.flatMap give).Pairwise (keyOf · ≤ keyOf ·) := by
  induction items with
  | nil => exact .nil
  | cons item rest ih =>
    obtain ⟨before, sorted⟩ := List.pairwise_cons.mp sorted
    rw [List.flatMap_cons, List.pairwise_append]
    refine ⟨?_, ih sorted fun other member => keeps other (List.mem_cons_of_mem _ member), ?_⟩
    · refine List.pairwise_of_forall_mem_list fun first member second member' => ?_
      rw [keeps item List.mem_cons_self first member, keeps item List.mem_cons_self second member']
    · intro first member second member'
      obtain ⟨other, inside, given⟩ := List.mem_flatMap.mp member'
      rw [keeps item List.mem_cons_self first member, keeps other (List.mem_cons_of_mem _ inside) second given]
      exact (before other inside).le

theorem filter_prefix_of_le (sorted : items.Pairwise (key · ≤ key ·)) {wanted : K}
    (from_ : ∀ item ∈ items, wanted ≤ key item) : items.filter (key · = wanted) <+: items := by
  induction items with
  | nil => exact List.prefix_rfl
  | cons item rest ih =>
    obtain ⟨before, sorted⟩ := List.pairwise_cons.mp sorted
    by_cases here : key item = wanted
    · rw [List.filter_cons, if_pos (decide_eq_true here)]
      exact (List.prefix_cons_inj item).mpr (ih sorted fun other member => from_ other (List.mem_cons_of_mem _ member))
    · have none : (item :: rest).filter (key · = wanted) = [] := by
        refine List.filter_eq_nil_iff.mpr fun other member same => ?_
        have above := lt_of_le_of_ne (from_ item List.mem_cons_self) (Ne.symm here)
        rcases List.mem_cons.mp member with rfl | later
        · exact here (of_decide_eq_true same)
        · exact absurd (of_decide_eq_true same) (above.trans_le (before other later)).ne'
      rw [none]
      exact List.nil_prefix

/-- Where items are in the order of their keys, those of one key stand together. -/
theorem filter_infix_of_pairwise (sorted : items.Pairwise (key · ≤ key ·)) (wanted : K) :
    items.filter (key · = wanted) <:+: items := by
  induction items with
  | nil => exact List.infix_rfl
  | cons item rest ih =>
    obtain ⟨before, sorted'⟩ := List.pairwise_cons.mp sorted
    by_cases below : key item < wanted
    · rw [List.filter_cons_of_neg (by simpa using below.ne)]
      exact (ih sorted').trans (List.suffix_cons item rest).isInfix
    · refine (filter_prefix_of_le sorted fun other member => ?_).isInfix
      rcases List.mem_cons.mp member with rfl | later
      · exact le_of_not_gt below
      · exact (le_of_not_gt below).trans (before other later)

/-- The order in which the items came does not matter. -/
theorem inKeyOrder_of_perm {other : List A} (unique : (items.map key).Nodup) (same : items.Perm other) :
    inKeyOrder key items = inKeyOrder key other := by
  have unique' : (other.map key).Nodup := (same.map key).nodup_iff.mp unique
  have perm := (inKeyOrder_perm unique).trans (same.trans (inKeyOrder_perm unique').symm)
  refine perm.eq_of_pairwise (fun first second member member' le ge => ?_) (pairwise_mergeSort_key key _) (pairwise_mergeSort_key key _)
  have here := (inKeyOrder_perm unique).mem_iff.mp member
  have there := same.mem_iff.mpr ((inKeyOrder_perm unique').mem_iff.mp member')
  exact List.inj_on_of_nodup_map unique here there (le_antisymm le ge)

end Order

section Steps

variable {give : A → Option (List B)} {items : List A}

/-- What steps that may fail give, one after the other. -/
def giveAll (give : A → Option (List B)) (items : List A) : Option (List B) := (items.mapM give).map List.flatten

theorem giveAll_of_forall {value : A → List B} (succeed : ∀ item ∈ items, give item = some (value item)) :
    giveAll give items = some (items.flatMap value) := by
  rw [giveAll]
  induction items with
  | nil => rfl
  | cons item rest ih =>
    have others := ih fun other member => succeed other (List.mem_cons_of_mem _ member)
    obtain ⟨lists, done, flat⟩ := Option.map_eq_some_iff.mp others
    rw [List.mapM_cons, succeed item List.mem_cons_self, done, List.flatMap_cons, ← flat]
    rfl

theorem giveAll_eq_some {given : List B} (done : giveAll give items = some given) :
    (∀ item ∈ items, ∃ value, give item = some value) ∧ given = items.flatMap fun item => (give item).getD [] := by
  have succeed : ∀ item ∈ items, ∃ value, give item = some value := by
    obtain ⟨lists, run, -⟩ := Option.map_eq_some_iff.mp done
    clear done
    induction items generalizing lists with
    | nil => exact List.forall_mem_nil _
    | cons item rest ih =>
      rw [List.mapM_cons] at run
      obtain ⟨value, first, run⟩ := Option.bind_eq_some_iff.mp run
      obtain ⟨others, rest, -⟩ := Option.bind_eq_some_iff.mp run
      exact List.forall_mem_cons.mpr ⟨⟨value, first⟩, ih others rest⟩
  refine ⟨succeed, ?_⟩
  have values : ∀ item ∈ items, give item = some ((give item).getD []) := by
    intro item member
    obtain ⟨value, first⟩ := succeed item member
    rw [first, Option.getD_some]
  have all := giveAll_of_forall values
  exact Option.some.inj (done.symm.trans all)

end Steps

end EkaCI.Lib
