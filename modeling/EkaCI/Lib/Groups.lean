import Mathlib.Data.List.Induction
import Mathlib.Data.List.Nodup
import Mathlib.Data.List.Perm.Basic
import Mathlib.Order.Lattice

/-! Items gathered under their keys, in the order of the keys, and what several keys
select. -/

namespace EkaCI.Lib

universe u v

variable {A : Type u} {K : Type v}

section Gather

variable [LinearOrder K]

/-- The item joins the group of its key, or opens it. -/
def joinGroup (key : K) (item : A) : List (K × List A) → List (K × List A)
  | [] => [(key, [item])]
  | group :: rest =>
    if key < group.1 then (key, [item]) :: group :: rest
    else if group.1 = key then (key, group.2 ++ [item]) :: rest
    else group :: joinGroup key item rest

/-- The groups, without the items that have no key. -/
def gatherGroups (key : A → Option K) (items : List A) : List (K × List A) :=
  items.foldl (fun groups item =>
    match key item with
    | some place => joinGroup place item groups
    | none => groups) []

def groupOf (groups : List (K × List A)) (key : K) : List A := ((groups.find? (·.1 = key)).map Prod.snd).getD []

variable {key : K} {item : A} {groups : List (K × List A)}

theorem fst_of_mem_joinGroup {group : K × List A} (member : group ∈ joinGroup key item groups) :
    group.1 = key ∨ ∃ earlier ∈ groups, earlier.1 = group.1 := by
  induction groups with
  | nil => exact .inl (congrArg Prod.fst (List.mem_singleton.mp member))
  | cons first rest ih =>
    rw [joinGroup] at member
    split at member
    · rcases List.mem_cons.mp member with rfl | later
      · exact .inl rfl
      · exact .inr ⟨group, later, rfl⟩
    · split at member
      · rcases List.mem_cons.mp member with rfl | later
        · exact .inl rfl
        · exact .inr ⟨group, List.mem_cons_of_mem _ later, rfl⟩
      · rcases List.mem_cons.mp member with rfl | later
        · exact .inr ⟨group, List.mem_cons_self, rfl⟩
        · refine (ih later).imp id ?_
          rintro ⟨earlier, present, same⟩
          exact ⟨earlier, List.mem_cons_of_mem _ present, same⟩

theorem joinGroup_sorted (sorted : groups.Pairwise fun first second => first.1 < second.1) :
    (joinGroup key item groups).Pairwise fun first second => first.1 < second.1 := by
  induction groups with
  | nil => exact List.pairwise_singleton _ _
  | cons first rest ih =>
    obtain ⟨least, sorted'⟩ := List.pairwise_cons.mp sorted
    rw [joinGroup]
    split
    · rename_i less
      refine List.pairwise_cons.mpr ⟨fun other member => ?_, sorted⟩
      rcases List.mem_cons.mp member with rfl | later
      · exact less
      · exact lt_trans less (least other later)
    · rename_i notLess
      split
      · rename_i same
        exact List.pairwise_cons.mpr ⟨same ▸ least, sorted'⟩
      · rename_i different
        refine List.pairwise_cons.mpr ⟨fun other member => ?_, ih sorted'⟩
        rcases fst_of_mem_joinGroup member with same | ⟨earlier, present, same⟩
        · rw [same]
          exact lt_of_le_of_ne (not_lt.mp notLess) different
        · rw [← same]
          exact least earlier present

theorem groupOf_joinGroup (sorted : groups.Pairwise fun first second => first.1 < second.1) (wanted : K) :
    groupOf (joinGroup key item groups) wanted =
      if key = wanted then groupOf groups wanted ++ [item] else groupOf groups wanted := by
  induction groups with
  | nil => by_cases same : key = wanted <;> simp [joinGroup, groupOf, same]
  | cons first rest ih =>
    obtain ⟨least, sorted'⟩ := List.pairwise_cons.mp sorted
    have ih := ih sorted'
    simp only [groupOf] at ih
    rw [joinGroup]
    split
    · rename_i less
      -- No group has the key yet.
      have absent : ∀ group ∈ first :: rest, group.1 ≠ key := by
        intro group member same
        rcases List.mem_cons.mp member with rfl | later
        · exact absurd (same ▸ less) (lt_irrefl _)
        · exact absurd (same ▸ lt_trans less (least group later)) (lt_irrefl _)
      by_cases same : key = wanted
      · subst same
        have missing : (first :: rest).find? (·.1 = key) = none :=
          List.find?_eq_none.mpr fun group member => by simpa using absent group member
        simp [groupOf, missing]
      · simp [groupOf, same]
    · split
      · rename_i own
        by_cases same : key = wanted <;> simp [groupOf, own, same]
      · rename_i different
        by_cases here : first.1 = wanted
        · have other : key ≠ wanted := fun same => different (here.trans same.symm)
          simp [groupOf, here, other]
        · simp only [groupOf, List.find?_cons, here, decide_false]
          exact ih

variable {keyOf : A → Option K} {items : List A}

theorem gatherGroups_append_singleton : gatherGroups keyOf (items ++ [item]) =
    match keyOf item with
    | some place => joinGroup place item (gatherGroups keyOf items)
    | none => gatherGroups keyOf items := by
  rw [gatherGroups, List.foldl_append]
  rfl

theorem gatherGroups_sorted : (gatherGroups keyOf items).Pairwise fun first second => first.1 < second.1 := by
  induction items using List.reverseRecOn with
  | nil => exact .nil
  | append_singleton earlier last ih =>
    rw [gatherGroups_append_singleton]
    split
    · exact joinGroup_sorted ih
    · exact ih

/-- Every group has the items of its key, in their order. -/
theorem groupOf_gatherGroups (wanted : K) : groupOf (gatherGroups keyOf items) wanted = items.filter (keyOf · = some wanted) := by
  induction items using List.reverseRecOn with
  | nil => rfl
  | append_singleton earlier last ih =>
    rw [gatherGroups_append_singleton, List.filter_append, ← ih]
    cases found : keyOf last with
    | none => simp [found]
    | some place =>
      dsimp only
      rw [groupOf_joinGroup gatherGroups_sorted]
      by_cases same : place = wanted <;> simp [found, same]

end Gather

section Select

variable {items : List A} {p q : A → Bool}
variable [DecidableEq K]

/-- The items of each of several keys, one key after the other. -/
theorem flatMap_filter_perm {key : A → K} {keys : List K} (unique : keys.Nodup) :
    (keys.flatMap fun wanted => items.filter (key · = wanted)).Perm (items.filter (key · ∈ keys)) := by
  induction keys with
  | nil => simp
  | cons first rest ih =>
    obtain ⟨new, unique⟩ := List.nodup_cons.mp unique
    rw [List.flatMap_cons]
    refine ((ih unique).append_left _).trans ?_
    have split := List.filter_append_perm (fun item => decide (key item = first)) (items.filter (key · ∈ first :: rest))
    simp only [List.filter_filter] at split
    refine (List.Perm.of_eq ?_).trans split
    congr 1
    · exact List.filter_congr fun item _ => by by_cases same : key item = first <;> simp [same]
    · refine List.filter_congr fun item _ => ?_
      by_cases same : key item = first
      · simp [same, new]
      · simp [same]

end Select

end EkaCI.Lib
