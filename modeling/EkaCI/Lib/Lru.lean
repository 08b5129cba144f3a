import EkaCI.Lib.Table

/-! A bounded cache in least-recently-used order. The key list of the table is
the recency order, most recent first; reads that do not promote leave it alone. -/

namespace EkaCI.Lib

universe u v

/-- A cache of positive capacity that never holds more entries than it may. -/
structure LruCache (K : Type u) (V : Type v) where
  entries : Table K V
  cap : Nat
  cap_pos : 0 < cap
  bounded : entries.keys.length ≤ cap

namespace LruCache

variable {K : Type u} {V : Type v}

def new (cap : Nat) (positive : 0 < cap) : LruCache K V :=
  ⟨.empty, cap, positive, Nat.zero_le _⟩

/-- Look a key up without promoting it. -/
def peek (cache : LruCache K V) (key : K) : Option V := cache.entries.get key

def contains (cache : LruCache K V) (key : K) : Bool := cache.entries.contains key

/-- The resident keys, most recently used first. -/
def keys (cache : LruCache K V) : List K := cache.entries.keys

@[ext] theorem ext {first second : LruCache K V} (keys : first.keys = second.keys)
    (peek : ∀ key, first.peek key = second.peek key) (cap : first.cap = second.cap) :
    first = second := by
  cases first
  cases second
  simp only [mk.injEq]
  exact ⟨Table.ext keys peek, cap⟩

variable {cache : LruCache K V} {key : K}

theorem mem_keys_iff : key ∈ cache.keys ↔ ∃ value, cache.peek key = some value := by
  rw [keys, cache.entries.mem_keys, Option.isSome_iff_exists]
  rfl

theorem contains_iff : cache.contains key = true ↔ key ∈ cache.keys :=
  (cache.entries.mem_keys key).symm

theorem contains_eq_false_iff : cache.contains key = false ↔ cache.peek key = none := by
  rw [contains, Table.contains, Option.isSome_eq_false_iff, Option.isNone_iff_eq_none]
  rfl

/-- The entry that has to leave when a key is inserted: the least recently used
one, if the key is new and the cache full. -/
def victim (cache : LruCache K V) (key : K) : Option K :=
  if cache.contains key = false ∧ cache.keys.length = cache.cap then cache.keys.getLast? else none

theorem victim_peek {other : K} (leaves : cache.victim key = some other) :
    other ≠ key ∧ ∃ value, cache.peek other = some value := by
  unfold victim at leaves
  split at leaves
  · rename_i full
    have member := mem_keys_iff.mp (List.mem_of_getLast? leaves)
    refine ⟨?_, member⟩
    rintro rfl
    obtain ⟨value, found⟩ := member
    rw [contains_eq_false_iff, found] at full
    cases full.1
  · cases leaves

theorem victim_of_room (room : cache.keys.length < cache.cap) : cache.victim key = none :=
  if_neg fun full => absurd full.2 (Nat.ne_of_lt room)

theorem victim_of_contains (present : cache.contains key = true) : cache.victim key = none :=
  if_neg fun full => by simp [present] at full

/-- A full cache loses its least recently used entry to a new key. -/
theorem victim_of_full (absent : cache.peek key = none) (full : cache.keys.length = cache.cap) :
    ∃ other, cache.victim key = some other := by
  have missing := contains_eq_false_iff.mpr absent
  have nonempty : cache.keys ≠ [] := by
    intro empty
    have positive := cache.cap_pos
    rw [← full, empty] at positive
    exact absurd positive (Nat.lt_irrefl 0)
  obtain ⟨last, found⟩ := Option.ne_none_iff_exists'.mp (mt List.getLast?_eq_none_iff.mp nonempty)
  exact ⟨last, by rw [victim, if_pos ⟨missing, full⟩, found]⟩

variable [DecidableEq K]

/-- Change a resident value in place; recency is untouched. -/
def modify (cache : LruCache K V) (key : K) (change : V → V) : LruCache K V where
  entries := cache.entries.modify key change
  cap := cache.cap
  cap_pos := cache.cap_pos
  bounded := cache.bounded

@[simp] theorem modify_keys (cache : LruCache K V) (key : K) (change : V → V) :
    (cache.modify key change).keys = cache.keys := rfl

@[simp] theorem modify_cap (cache : LruCache K V) (key : K) (change : V → V) :
    (cache.modify key change).cap = cache.cap := rfl

theorem modify_peek (cache : LruCache K V) (key other : K) (change : V → V) :
    (cache.modify key change).peek other =
      if other = key then (cache.peek other).map change else cache.peek other :=
  cache.entries.modify_get key other change

/-- The table after the least recently used entry has left. -/
def dropLast (entries : Table K V) : Option (K × V) × Table K V :=
  match entries.keys.getLast? with
  | none => (none, entries)
  | some key => ((entries.get key).map (key, ·), entries.erase key)

theorem dropLast_length (entries : Table K V) (nonempty : entries.keys ≠ []) :
    (dropLast entries).2.keys.length + 1 = entries.keys.length := by
  obtain ⟨last, found⟩ := Option.ne_none_iff_exists'.mp (mt List.getLast?_eq_none_iff.mp nonempty)
  have member := List.mem_of_getLast? found
  simp only [dropLast, found, Table.erase_keys, List.length_erase_of_mem member]
  have positive := List.length_pos_of_mem member
  omega

/-- Insert a key as most recent. The old binding of the key, or else the entry
that had to leave a full cache, is returned. -/
def push (cache : LruCache K V) (key : K) (value : V) : Option (K × V) × LruCache K V :=
  match bound : cache.entries.get key with
  | some old =>
    (some (key, old),
      { entries := cache.entries.push key value
        cap := cache.cap
        cap_pos := cache.cap_pos
        bounded := by
          have member := Table.mem_keys_of_get bound
          have positive := List.length_pos_of_mem member
          have fits := cache.bounded
          simp only [Table.push_keys, List.length_cons, List.length_erase_of_mem member]
          omega })
  | none =>
    if full : cache.entries.keys.length = cache.cap then
      ((dropLast cache.entries).1,
        { entries := (dropLast cache.entries).2.push key value
          cap := cache.cap
          cap_pos := cache.cap_pos
          bounded := by
            have nonempty : cache.entries.keys ≠ [] := by
              intro empty
              have positive := cache.cap_pos
              simp [empty] at full
              omega
            have shorter := dropLast_length cache.entries nonempty
            have erased := List.length_erase_le (a := key) (l := (dropLast cache.entries).2.keys)
            simp only [Table.push_keys, List.length_cons]
            omega })
    else
      (none,
        { entries := cache.entries.push key value
          cap := cache.cap
          cap_pos := cache.cap_pos
          bounded := by
            have fits := cache.bounded
            have erased := List.length_erase_le (a := key) (l := cache.entries.keys)
            simp only [Table.push_keys, List.length_cons]
            omega })

@[simp] theorem push_cap (cache : LruCache K V) (key : K) (value : V) :
    (cache.push key value).2.cap = cache.cap := by
  unfold push
  split
  · rfl
  · split <;> rfl

@[simp] theorem push_peek_self (cache : LruCache K V) (key : K) (value : V) :
    (cache.push key value).2.peek key = some value := by
  unfold push
  split
  · simp [peek]
  · split <;> simp [peek]

/-- What an insertion returns: the old binding of the key, or else the victim. -/
theorem push_fst (cache : LruCache K V) (key : K) (value : V) :
    (cache.push key value).1 = match cache.peek key with
      | some old => some (key, old)
      | none => (cache.victim key).bind fun other => (cache.peek other).map (other, ·) := by
  unfold push
  split
  · rename_i old bound
    simp only [peek, bound]
  · rename_i bound
    simp only [peek, bound, victim, contains, Table.contains, Option.isSome_none, true_and, keys]
    by_cases full : cache.entries.keys.length = cache.cap
    · simp only [full, dite_true, if_true, dropLast]
      cases cache.entries.keys.getLast? <;> rfl
    · simp only [full, dite_false, if_false]
      rfl

/-- The key of the entry that an insertion displaces. -/
theorem push_fst_key (cache : LruCache K V) (key : K) (value : V) :
    (cache.push key value).1.map Prod.fst =
      if cache.contains key then some key else cache.victim key := by
  rw [push_fst, contains, Table.contains, ← peek]
  cases cache.peek key with
  | some old => rfl
  | none =>
    cases leaves : cache.victim key with
    | none => rfl
    | some other =>
      obtain ⟨-, old, found⟩ := victim_peek leaves
      simp [found]

/-- After an insertion the key has its new value, the victim is gone and the
rest is as before. -/
theorem push_peek (cache : LruCache K V) (key other : K) (value : V) :
    (cache.push key value).2.peek other = if other = key then some value
      else if cache.victim key = some other then none else cache.peek other := by
  unfold push
  split
  · rename_i old bound
    have present : cache.contains key = true := by simp [contains, Table.contains, bound]
    simp [victim_of_contains present, peek, Table.push_get]
  · rename_i bound
    simp only [victim, contains, Table.contains, bound, Option.isSome_none, true_and, keys]
    by_cases full : cache.entries.keys.length = cache.cap
    · simp only [full, dite_true, if_true, peek, Table.push_get, dropLast]
      cases cache.entries.keys.getLast? with
      | none => simp
      | some last => simp [Table.erase_get, eq_comm]
    · simp [full, peek, Table.push_get]

/-- Every other key keeps its value, unless it is the entry that had to leave. -/
theorem push_peek_of_ne (cache : LruCache K V) {other : K} (value : V) (different : other ≠ key) :
    (cache.push key value).2.peek other = cache.peek other ∨
      (cache.push key value).2.peek other = none := by
  rw [push_peek, if_neg different]
  split
  · exact .inr rfl
  · exact .inl rfl

/-- With room to spare nothing leaves. -/
theorem push_peek_of_room (cache : LruCache K V) (key other : K) (value : V)
    (room : cache.keys.length < cache.cap) :
    (cache.push key value).2.peek other = if other = key then some value else cache.peek other := by
  rw [push_peek, victim_of_room room]
  simp

/-- With room to spare only an old binding of the key can be displaced. -/
theorem push_fst_of_room (cache : LruCache K V) (key : K) (value : V) {displaced : K × V}
    (room : cache.keys.length < cache.cap) (found : (cache.push key value).1 = some displaced) :
    displaced.1 = key := by
  rw [push_fst, victim_of_room room] at found
  split at found
  · cases found
    rfl
  · cases found

/-- A new key goes to the front; of the others only the last may leave. -/
theorem push_keys_of_absent (cache : LruCache K V) (value : V) (absent : cache.peek key = none) :
    ∃ rest, (cache.push key value).2.keys = key :: rest ∧ rest <+: cache.keys := by
  have unlisted : key ∉ cache.entries.keys := Table.get_none_iff.mp absent
  unfold push
  split
  · rename_i old bound
    cases absent.symm.trans bound
  · split
    · refine ⟨_, rfl, ?_⟩
      simp only [dropLast]
      split
      · rw [List.erase_of_not_mem unlisted]
        exact List.prefix_refl _
      · rename_i last found
        obtain ⟨older, split⟩ := List.getLast?_eq_some_iff.mp found
        have unique := cache.entries.nodup
        rw [split, List.nodup_append] at unique
        have new : last ∉ older := fun member => unique.2.2 last member last List.mem_cons_self rfl
        rw [Table.erase_keys, keys, List.erase_of_not_mem fun member => unlisted (List.mem_of_mem_erase member), split,
          List.erase_append_right _ new]
        simp
    · exact ⟨_, rfl, by rw [List.erase_of_not_mem unlisted]; exact List.prefix_refl _⟩

theorem push_length (cache : LruCache K V) (key : K) (value : V) :
    (cache.push key value).2.keys.length ≤ cache.keys.length + 1 := by
  have erased := fun entries : Table K V => List.length_erase_le (a := key) (l := entries.keys)
  unfold push
  split
  · exact Nat.succ_le_succ (erased _)
  · split
    · have dropped : (dropLast cache.entries).2.keys.length ≤ cache.entries.keys.length := by
        unfold dropLast
        split
        · exact Nat.le_refl _
        · exact List.length_erase_le
      exact Nat.succ_le_succ (Nat.le_trans (erased _) dropped)
    · exact Nat.succ_le_succ (erased _)

/-- Look a key up and make it the most recently used. -/
def get (cache : LruCache K V) (key : K) : Option V × LruCache K V :=
  match cache.peek key with
  | some value => (some value, (cache.push key value).2)
  | none => (none, cache)

theorem get_fst (cache : LruCache K V) (key : K) : (cache.get key).1 = cache.peek key := by
  unfold get
  split <;> simp [*]

/-- A lookup changes recency only. -/
theorem get_peek (cache : LruCache K V) (key other : K) : (cache.get key).2.peek other = cache.peek other := by
  unfold get
  split
  · rename_i value found
    have present : cache.contains key = true := by
      rw [contains_iff, mem_keys_iff]
      exact ⟨value, found⟩
    rw [push_peek, victim_of_contains present]
    split
    · rename_i same
      rw [same, found]
    · rfl
  · rfl

end LruCache

end EkaCI.Lib
