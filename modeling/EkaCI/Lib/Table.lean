import Mathlib.Data.List.Nodup

/-! Finite key-value tables that remember the order of their keys. Lookup is a
function, so updates reason pointwise; the key list is what iteration sees. -/

namespace EkaCI.Lib

universe u v

/-- A finite map with an explicit order of its keys. The two fields cannot
disagree: a key is listed exactly when it has a value. -/
structure Table (K : Type u) (V : Type v) where
  keys : List K
  get : K → Option V
  nodup : keys.Nodup
  mem_keys : ∀ key, key ∈ keys ↔ (get key).isSome

namespace Table

variable {K : Type u} {V : Type v}

@[ext] theorem ext {first second : Table K V} (keys : first.keys = second.keys)
    (get : ∀ key, first.get key = second.get key) : first = second := by
  cases first
  cases second
  simp only [mk.injEq]
  exact ⟨keys, funext get⟩

def empty : Table K V := ⟨[], fun _ => none, List.nodup_nil, by simp⟩

@[simp] theorem empty_get (key : K) : (empty : Table K V).get key = none := rfl

@[simp] theorem empty_keys : (empty : Table K V).keys = [] := rfl

def contains (table : Table K V) (key : K) : Bool := (table.get key).isSome

/-- The values in key order. -/
def values (table : Table K V) : List V := table.keys.filterMap table.get

variable {table : Table K V} {key : K}

theorem mem_keys_of_get {value : V} (found : table.get key = some value) : key ∈ table.keys := by
  rw [table.mem_keys, found]
  rfl

theorem get_of_mem_keys (member : key ∈ table.keys) : ∃ value, table.get key = some value :=
  Option.isSome_iff_exists.mp ((table.mem_keys key).mp member)

theorem get_none_iff : table.get key = none ↔ key ∉ table.keys := by
  simp [table.mem_keys]

theorem keys_eq_nil_of_values (empty : table.values = []) : table.keys = [] := by
  refine List.eq_nil_iff_forall_not_mem.mpr fun key member => ?_
  obtain ⟨value, found⟩ := get_of_mem_keys member
  have listed : value ∈ table.values := List.mem_filterMap.mpr ⟨key, member, found⟩
  rw [empty] at listed
  cases listed

/-- Rewrite one value where it stands; an absent key stays absent. -/
def modify [DecidableEq K] (table : Table K V) (key : K) (change : V → V) : Table K V where
  keys := table.keys
  get := Function.update table.get key ((table.get key).map change)
  nodup := table.nodup
  mem_keys other := by
    by_cases same : other = key
    · subst other
      simp [table.mem_keys]
    · simp [Function.update_of_ne same, table.mem_keys]

section Update

variable [DecidableEq K]
variable (table : Table K V) (key : K) (change : V → V)

@[simp] theorem modify_keys :
    (table.modify key change).keys = table.keys := rfl

@[simp] theorem modify_get_self : (table.modify key change).get key = (table.get key).map change := by
  simp [modify]

theorem modify_get_of_ne {key other : K} (different : other ≠ key) :
    (table.modify key change).get other = table.get other := by
  simp [modify, Function.update_of_ne different]

theorem modify_get (other : K) (change : V → V) :
    (table.modify key change).get other =
      if other = key then (table.get other).map change else table.get other := by
  by_cases same : other = key
  · subst other
    simp
  · simp [same, modify_get_of_ne table change same]

/-- What stands in the table after a change of one value is that value, changed, or stood there before. -/
theorem of_modify_get {table : Table K V} {key other : K} {value result : V} {change : V → V}
    (found : table.get key = some value) (present : (table.modify key change).get other = some result) :
    other = key ∧ result = change value ∨ other ≠ key ∧ table.get other = some result := by
  by_cases same : other = key
  · subst same
    rw [modify_get_self, found] at present
    exact .inl ⟨rfl, (Option.some.inj present).symm⟩
  · rw [modify_get_of_ne table change same] at present
    exact .inr ⟨same, present⟩

/-- Putting the changed value in place is a rewrite. -/
theorem modify_const_get {table : Table K V} {key : K} {value : V} (found : table.get key = some value)
    (change : V → V) (other : K) :
    (table.modify key fun _ => change value).get other =
      if other = key then (table.get other).map change else table.get other := by
  rw [modify_get]
  refine ite_congr rfl (fun same => ?_) fun _ => rfl
  rw [same, found]
  rfl

/-- A change that does not concern the value under a key rewrites nothing. -/
theorem get_of_fixed {table : Table K V} {key : K} {change : V → V}
    (fixed : ∀ value, table.get key = some value → change value = value) (other : K) :
    table.get other = if other = key then (table.get other).map change else table.get other := by
  split
  · rename_i same
    cases found : table.get other with
    | none => rfl
    | some value => rw [Option.map_some, fixed value (same ▸ found)]
  · rfl

/-- Remove a key and its value. -/
def erase (table : Table K V) (key : K) : Table K V where
  keys := table.keys.erase key
  get := Function.update table.get key none
  nodup := table.nodup.erase key
  mem_keys other := by
    rw [table.nodup.mem_erase_iff]
    by_cases same : other = key
    · subst other
      simp
    · simp [same, table.mem_keys]

@[simp] theorem erase_get_self : (table.erase key).get key = none := by
  simp [erase]

theorem erase_get (other : K) : (table.erase key).get other = if other = key then none else table.get other := by
  by_cases same : other = key
  · subst other
    simp
  · simp [same, erase]

theorem erase_keys : (table.erase key).keys = table.keys.erase key :=
  rfl

/-- Bind a key and list it first, dropping any earlier position. -/
def push (table : Table K V) (key : K) (value : V) : Table K V where
  keys := key :: table.keys.erase key
  get := Function.update table.get key (some value)
  nodup := by
    rw [List.nodup_cons]
    exact ⟨fun member => (table.nodup.mem_erase_iff.mp member).1 rfl, table.nodup.erase key⟩
  mem_keys other := by
    rw [List.mem_cons, table.nodup.mem_erase_iff]
    by_cases same : other = key
    · subst other
      simp
    · simp [same, table.mem_keys]

@[simp] theorem push_get_self (value : V) : (table.push key value).get key = some value := by
  simp [push]

theorem push_get (other : K) (value : V) :
    (table.push key value).get other = if other = key then some value else table.get other := by
  by_cases same : other = key
  · subst other
    simp
  · simp [same, push]

theorem push_keys (value : V) :
    (table.push key value).keys = key :: table.keys.erase key := rfl

/-- The entries that are to be kept. -/
def retain (table : Table K V) (keep : V → Bool) : Table K V where
  keys := table.keys.filter fun key => (table.get key).any keep
  get key := (table.get key).filter keep
  nodup := table.nodup.filter _
  mem_keys key := by
    rw [List.mem_filter, table.mem_keys]
    cases table.get key with
    | none => simp
    | some value => cases found : keep value <;> simp [found]

omit [DecidableEq K] in
theorem retain_get_eq_some {table : Table K V} {keep : V → Bool} {key : K} {value : V} :
    (table.retain keep).get key = some value ↔ table.get key = some value ∧ keep value = true :=
  Option.filter_eq_some_iff

theorem foldl_erase_get (list : List K) (key : K) :
    (list.foldl erase table).get key = if key ∈ list then none else table.get key := by
  induction list generalizing table with
  | nil => simp
  | cons head rest ih =>
    rw [List.foldl_cons, ih, erase_get]
    by_cases same : key = head <;> simp [same]

/-- Rewriting values one key at a time over a list reaches each key once, as
long as applying the change twice is the same as applying it once. -/
theorem foldl_modify_get (list : List K) (change : K → V → V)
    (idempotent : ∀ key value, change key (change key value) = change key value) (other : K) :
    (list.foldl (fun table key => table.modify key (change key)) table).get other =
      if other ∈ list then (table.get other).map (change other) else table.get other := by
  induction list generalizing table with
  | nil => simp
  | cons key rest ih =>
    rw [List.foldl_cons, ih, modify_get]
    by_cases same : other = key
    · subst other
      by_cases later : key ∈ rest <;> simp [later, Option.map_map, Function.comp_def, idempotent]
    · simp [same]

/-- A table filled from a partial function, key by key. -/
theorem foldl_push_get {W : Type*} (list : List K) (source : K → Option W) (convert : W → V)
    (table : Table K V) (other : K) :
    ((list.filterMap fun key => (source key).map (key, ·)).foldl
        (fun table entry => table.push entry.1 (convert entry.2)) table).get other =
      if other ∈ list ∧ (source other).isSome then (source other).map convert else table.get other := by
  induction list generalizing table with
  | nil => simp
  | cons key rest ih =>
    cases found : source key with
    | none =>
      simp only [List.filterMap_cons, found, Option.map_none, ih, List.mem_cons]
      by_cases same : other = key
      · subst other
        simp [found]
      · simp [same]
    | some value =>
      simp only [List.filterMap_cons, found, Option.map_some, List.foldl_cons, ih, push_get,
        List.mem_cons]
      by_cases same : other = key
      · subst other
        simp [found]
      · simp [same]

end Update

end Table

end EkaCI.Lib
