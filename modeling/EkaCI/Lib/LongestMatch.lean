import Mathlib.Data.List.MinMax
import Mathlib.Data.List.Nodup

/-! Tables whose keys cover addresses. A new entry takes the place of the one under the
same key, and an address goes where the longest key that covers it says. -/

namespace EkaCI.Lib

universe u v w

/-- Two keys of one length that cover a common address are the same key, so the longest
one is never in doubt. -/
structure Cover (K : Type u) (A : Type v) where
  covers : K → A → Bool
  length : K → Nat
  unique : ∀ {key other : K} {address : A}, covers key address = true → covers other address = true →
    length key = length other → key = other

/-- At most one entry under a key. -/
structure RouteTable (K : Type u) (V : Type w) where
  entries : List (K × V)
  nodup : (entries.map Prod.fst).Nodup

namespace RouteTable

variable {K : Type u} {A : Type v} {V : Type w}

section Update

variable [DecidableEq K]

def replace (table : RouteTable K V) (key : K) (value : V) : RouteTable K V where
  entries := table.entries.filter (·.1 ≠ key) ++ [(key, value)]
  nodup := by
    rw [List.map_append, List.nodup_append]
    refine ⟨table.nodup.sublist (List.filter_sublist.map Prod.fst), by simp, ?_⟩
    intro other member last isLast
    obtain ⟨entry, kept, rfl⟩ := List.mem_map.mp member
    simp only [List.map_cons, List.map_nil, List.mem_singleton] at isLast
    subst last
    simpa using (List.mem_filter.mp kept).2

theorem mem_replace {table : RouteTable K V} {key other : K} {value found : V} :
    (other, found) ∈ (table.replace key value).entries ↔
      (other = key ∧ found = value) ∨ (other ≠ key ∧ (other, found) ∈ table.entries) := by
  simp only [replace, List.mem_append, List.mem_filter, List.mem_singleton, Prod.mk.injEq, decide_eq_true_eq]
  tauto

/-- Entries go in one after the other. -/
def install (table : RouteTable K V) (plan : List (K × V)) : RouteTable K V :=
  plan.foldl (fun current entry => current.replace entry.1 entry.2) table

variable (table : RouteTable K V)

@[simp] theorem install_nil : table.install [] = table := rfl

@[simp] theorem install_cons (entry : K × V) (plan : List (K × V)) :
    table.install (entry :: plan) = (table.replace entry.1 entry.2).install plan := rfl

@[simp] theorem install_append (first second : List (K × V)) :
    table.install (first ++ second) = (table.install first).install second := by
  simp [install]

/-- Keys that all get one value: whatever they held before is gone, and the other keys keep
their entries. -/
theorem mem_install_map (value : V) (keys : List K) (table : RouteTable K V) {other : K} {found : V} :
    (other, found) ∈ (table.install (keys.map (·, value))).entries ↔
      (other ∈ keys ∧ found = value) ∨ (other ∉ keys ∧ (other, found) ∈ table.entries) := by
  induction keys generalizing table with
  | nil => simp
  | cons key rest ih =>
    rw [List.map_cons, install_cons, ih, mem_replace, List.mem_cons]
    tauto

end Update

/-- Where the longest key that covers the address leads. -/
def lookup (cover : Cover K A) (table : RouteTable K V) (address : A) : Option V :=
  ((table.entries.filter (cover.covers ·.1 address)).argmax (cover.length ·.1)).map Prod.snd

theorem exists_lookup (cover : Cover K A) {table : RouteTable K V} {key : K} {value : V} {address : A}
    (listed : (key, value) ∈ table.entries) (covered : cover.covers key address = true) :
    ∃ found, table.lookup cover address = some found := by
  have candidate : (key, value) ∈ table.entries.filter (cover.covers ·.1 address) :=
    List.mem_filter.mpr ⟨listed, covered⟩
  refine Option.ne_none_iff_exists'.mp fun missing => ?_
  rw [lookup, Option.map_eq_none_iff] at missing
  rw [List.argmax_eq_none.mp missing] at candidate
  cases candidate

/-- What is found stands under the longest key that covers the address. -/
theorem exists_of_lookup {cover : Cover K A} {table : RouteTable K V} {address : A} {value : V}
    (found : table.lookup cover address = some value) :
    ∃ key, (key, value) ∈ table.entries ∧ cover.covers key address = true ∧
      ∀ entry ∈ table.entries, cover.covers entry.1 address = true → cover.length entry.1 ≤ cover.length key := by
  obtain ⟨⟨key, held⟩, best, rfl⟩ := Option.map_eq_some_iff.mp found
  obtain ⟨listed, covered⟩ := List.mem_filter.mp (List.argmax_mem best)
  refine ⟨key, listed, covered, fun entry member covers => ?_⟩
  have candidate : entry ∈ table.entries.filter (cover.covers ·.1 address) :=
    List.mem_filter.mpr ⟨member, covers⟩
  exact List.le_of_mem_argmax (f := fun entry => cover.length entry.1) candidate best

end RouteTable

end EkaCI.Lib
