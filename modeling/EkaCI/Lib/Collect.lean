import Mathlib.Data.List.Induction

/-! Maps collected from a list of pairs, of which the later ones win, and tables
that ignore a row whose key is taken. -/

namespace EkaCI.Lib

universe u v

variable {K : Type u} {V : Type v} [DecidableEq K]

def assign (map : K → Option V) (pair : K × V) : K → Option V := Function.update map pair.1 (some pair.2)

def collect (pairs : List (K × V)) : K → Option V := pairs.foldl assign fun _ => none

theorem foldl_assign (pairs : List (K × V)) (map : K → Option V) (key : K) :
    pairs.foldl assign map key = (collect pairs key).or (map key) := by
  induction pairs using List.reverseRecOn with
  | nil => rfl
  | append_singleton earlier last ih =>
    rw [collect, List.foldl_append, List.foldl_append, List.foldl_cons, List.foldl_cons, List.foldl_nil,
      List.foldl_nil, assign, assign, Function.update_apply, Function.update_apply]
    split
    · rfl
    · exact ih

theorem collect_append (first second : List (K × V)) (key : K) :
    collect (first ++ second) key = (collect second key).or (collect first key) := by
  rw [collect, List.foldl_append, foldl_assign]
  rfl

theorem collect_cons (pair : K × V) (rest : List (K × V)) (key : K) :
    collect (pair :: rest) key = (collect rest key).or (if key = pair.1 then some pair.2 else none) := by
  rw [← List.singleton_append, collect_append]
  have single : collect [pair] key = if key = pair.1 then some pair.2 else none := by
    rw [collect, List.foldl_cons, List.foldl_nil, assign, Function.update_apply]
  rw [single]

theorem mem_of_collect {pairs : List (K × V)} {key : K} {value : V} (found : collect pairs key = some value) :
    (key, value) ∈ pairs := by
  induction pairs with
  | nil => cases found
  | cons pair rest ih =>
    rw [collect_cons, Option.or_eq_some_iff] at found
    obtain later | ⟨-, here⟩ := found
    · exact List.mem_cons_of_mem _ (ih later)
    · obtain ⟨rfl, rfl⟩ : key = pair.1 ∧ pair.2 = value := by
        split at here
        · rename_i same
          exact ⟨same, Option.some.inj here⟩
        · cases here
      exact List.mem_cons_self

theorem collect_of_mem {pairs : List (K × V)} {key : K} {value : V} (member : (key, value) ∈ pairs) :
    ∃ last, collect pairs key = some last := by
  induction pairs with
  | nil => cases member
  | cons pair rest ih =>
    rw [collect_cons]
    obtain rfl | member := List.mem_cons.mp member
    · cases collect rest key with
      | none => exact ⟨value, by simp⟩
      | some last => exact ⟨last, rfl⟩
    · obtain ⟨last, found⟩ := ih member
      exact ⟨last, by rw [found]; rfl⟩

/-- The rows of a key overwrite one another, and those of other keys change nothing. -/
theorem foldl_update {R : Type*} {rows : List R} {key : R → K} {value : R → V} {map : K → V} (place : K) :
    (∃ row ∈ rows, key row = place ∧ rows.foldl (fun map row => Function.update map (key row) (value row)) map place = value row) ∨
      ((∀ row ∈ rows, key row ≠ place) ∧ rows.foldl (fun map row => Function.update map (key row) (value row)) map place = map place) := by
  induction rows using List.reverseRecOn with
  | nil => exact .inr ⟨(fun _ member => nomatch member), rfl⟩
  | append_singleton earlier last ih =>
    rw [List.foldl_append, List.foldl_cons, List.foldl_nil]
    by_cases same : key last = place
    · refine .inl ⟨last, List.mem_append_right _ List.mem_cons_self, same, ?_⟩
      rw [← same, Function.update_self]
    · rw [Function.update_of_ne (Ne.symm same)]
      refine ih.imp ?_ ?_
      · exact fun ⟨row, member, found⟩ => ⟨row, List.mem_append_left _ member, found⟩
      · refine fun ⟨others, kept⟩ => ⟨fun row member => ?_, kept⟩
        rcases List.mem_append.mp member with old | new
        · exact others row old
        · rwa [List.mem_singleton.mp new]

section Keyed

variable {R : Type v} (key : R → K)

def insertIgnore (table : List R) (row : R) : List R :=
  if table.any fun stored => key stored = key row then table else table ++ [row]

variable {key}
variable {table rows : List R} {row : R}

theorem mem_insertIgnore {other : R} (agree : ∀ stored ∈ table, key stored = key row → stored = row) :
    other ∈ insertIgnore key table row ↔ other ∈ table ∨ other = row := by
  unfold insertIgnore
  split
  · rename_i taken
    obtain ⟨stored, member, same⟩ := List.any_eq_true.mp taken
    have same := agree stored member (of_decide_eq_true same)
    exact ⟨Or.inl, fun either => either.elim id fun equal => equal ▸ same ▸ member⟩
  · simp

/-- Rows whose keys tell them apart are all kept. -/
theorem mem_foldl_insertIgnore {other : R}
    (agree : ∀ first ∈ table ++ rows, ∀ second ∈ rows, key first = key second → first = second) :
    other ∈ rows.foldl (insertIgnore key) table ↔ other ∈ table ∨ other ∈ rows := by
  induction rows generalizing table with
  | nil => simp
  | cons row rest ih =>
    have here : ∀ stored, stored ∈ insertIgnore key table row ↔ stored ∈ table ∨ stored = row := fun stored =>
      mem_insertIgnore fun stored member => agree stored (List.mem_append_left _ member) row List.mem_cons_self
    rw [List.foldl_cons, ih, here, List.mem_cons, or_assoc]
    intro first member second later
    refine agree first ?_ second (List.mem_cons_of_mem _ later)
    rw [List.mem_append, here] at member
    rw [List.mem_append, List.mem_cons]
    tauto

theorem nodup_insertIgnore (unique : (table.map key).Nodup) : ((insertIgnore key table row).map key).Nodup := by
  unfold insertIgnore
  split
  · exact unique
  · rename_i absent
    rw [List.map_append, List.map_singleton, List.nodup_append]
    refine ⟨unique, List.pairwise_singleton _ _, fun taken member other last same => absent ?_⟩
    obtain ⟨stored, present, rfl⟩ := List.mem_map.mp member
    exact List.any_eq_true.mpr ⟨stored, present, decide_eq_true (same.trans (List.mem_singleton.mp last))⟩

theorem subset_insertIgnore (table : List R) (row : R) : table ⊆ insertIgnore key table row := by
  intro stored present
  unfold insertIgnore
  split
  · exact present
  · exact List.mem_append_left _ present

theorem subset_foldl_insertIgnore (table rows : List R) : table ⊆ rows.foldl (insertIgnore key) table := by
  induction rows generalizing table with
  | nil => exact fun _ present => present
  | cons head rest ih => exact fun stored present => ih _ (subset_insertIgnore table head present)

/-- Whatever is ignored, a row with its key is there. -/
theorem exists_mem_foldl_insertIgnore (member : row ∈ rows) :
    ∃ stored ∈ rows.foldl (insertIgnore key) table, key stored = key row := by
  induction rows generalizing table with
  | nil => cases member
  | cons head rest ih =>
    rcases List.mem_cons.mp member with rfl | later
    · obtain ⟨stored, present, same⟩ : ∃ stored ∈ insertIgnore key table row, key stored = key row := by
        unfold insertIgnore
        split
        · rename_i taken
          obtain ⟨stored, present, same⟩ := List.any_eq_true.mp taken
          exact ⟨stored, present, of_decide_eq_true same⟩
        · exact ⟨row, List.mem_append_right _ (List.mem_singleton.mpr rfl), rfl⟩
      exact ⟨stored, subset_foldl_insertIgnore _ rest present, same⟩
    · exact ih later

/-- A key is there afterwards if it was there or is the key of a row. -/
theorem mem_keys_foldl_insertIgnore {taken : K} :
    taken ∈ (rows.foldl (insertIgnore key) table).map key ↔ taken ∈ table.map key ∨ taken ∈ rows.map key := by
  induction rows generalizing table with
  | nil => simp
  | cons head rest ih =>
    have here : taken ∈ (insertIgnore key table head).map key ↔ taken ∈ table.map key ∨ taken = key head := by
      unfold insertIgnore
      split
      · rename_i present
        obtain ⟨stored, member, same⟩ := List.any_eq_true.mp present
        refine ⟨Or.inl, fun either => either.elim id fun equal => ?_⟩
        rw [equal, ← of_decide_eq_true same]
        exact List.mem_map_of_mem member
      · rw [List.map_append, List.mem_append, List.map_singleton, List.mem_singleton]
    rw [List.foldl_cons, ih, here, List.map_cons, List.mem_cons, or_assoc]

/-- Rows of another kind are left as they are. -/
theorem filter_foldl_insertIgnore {p : R → Bool} (other : ∀ row ∈ rows, p row = false) :
    (rows.foldl (insertIgnore key) table).filter p = table.filter p := by
  induction rows generalizing table with
  | nil => rfl
  | cons head rest ih =>
    rw [List.foldl_cons, ih fun row member => other row (List.mem_cons_of_mem _ member)]
    unfold insertIgnore
    split
    · rfl
    · rw [List.filter_append, List.filter_cons_of_neg (by simp [other head List.mem_cons_self])]
      simp

end Keyed

/-- What at most one of any two elements has, at most one element has. -/
theorem length_filter_le_one {A : Type u} {p : A → Bool} {list : List A}
    (unlike : list.Pairwise fun first second => ¬ (p first = true ∧ p second = true)) :
    (list.filter p).length ≤ 1 := by
  have none : (list.filter p).Pairwise fun _ _ => False := by
    refine List.Pairwise.imp_of_mem ?_ (unlike.filter p)
    exact fun member member' unlike => unlike ⟨(List.mem_filter.mp member).2, (List.mem_filter.mp member').2⟩
  match list.filter p, none with
  | [], _ => exact Nat.zero_le 1
  | [_], _ => exact Nat.le_refl 1
  | _ :: _ :: _, none => exact (List.rel_of_pairwise_cons none List.mem_cons_self).elim

/-- What is left of a list without repetitions is found again in it, in order. -/
theorem filter_mem_of_sublist [DecidableEq α] {part all : List α} (sublist : part.Sublist all) (distinct : all.Nodup) :
    all.filter (· ∈ part) = part := by
  induction sublist with
  | slnil => rfl
  | @cons part all item rest ih =>
    obtain ⟨absent, distinct⟩ := List.nodup_cons.mp distinct
    rw [List.filter_cons_of_neg (by simpa using fun member => absent (rest.subset member))]
    exact ih distinct
  | @cons_cons part all item rest ih =>
    obtain ⟨absent, distinct⟩ := List.nodup_cons.mp distinct
    rw [List.filter_cons_of_pos (by simp)]
    congr 1
    refine (List.filter_congr fun other member => ?_).trans (ih distinct)
    have apart : other ≠ item := fun same => absent (same ▸ member)
    simp [apart]

end EkaCI.Lib
