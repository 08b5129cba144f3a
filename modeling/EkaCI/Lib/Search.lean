import Mathlib.Data.List.Nodup
import Mathlib.Data.List.Perm.Subperm

/-! Breadth-first search with one shared visited list. The visited list is in
discovery order, so what has been expanded is the part of it before the queue. -/

namespace EkaCI.Lib

universe u

variable {α : Type u} [DecidableEq α]

/-- The items of a list that the visited list does not hold yet, each once. -/
def fresh (visited : List α) : List α → List α
  | [] => []
  | item :: rest =>
    if item ∈ visited then fresh visited rest else item :: fresh (item :: visited) rest

variable {visited queue domain start final : List α} {current item : α} {state : List α × List α}

theorem mem_fresh {items : List α} : item ∈ fresh visited items ↔ item ∈ items ∧ item ∉ visited := by
  induction items generalizing visited with
  | nil => simp [fresh]
  | cons head rest ih =>
    rw [fresh]
    by_cases known : head ∈ visited
    · simp only [known, if_true, ih, List.mem_cons]
      constructor
      · rintro ⟨member, absent⟩
        exact ⟨.inr member, absent⟩
      · rintro ⟨same | member, absent⟩
        · exact absurd (same ▸ known) absent
        · exact ⟨member, absent⟩
    · simp only [known, if_false, List.mem_cons, ih, not_or]
      by_cases same : item = head
      · simp [same, known]
      · simp [same]

theorem fresh_nodup (visited items : List α) : (fresh visited items).Nodup := by
  induction items generalizing visited with
  | nil => simp [fresh]
  | cons head rest ih =>
    rw [fresh]
    split
    · exact ih visited
    · rw [List.nodup_cons]
      refine ⟨fun member => ?_, ih _⟩
      exact (mem_fresh.mp member).2 (List.mem_cons_self ..)

/-- Expand the queue from its head. Newly seen successors join both the queue
and the visited list; the fuel bounds the number of expansions. -/
def search (next : α → List α) : Nat → List α → List α → List α
  | 0, _, visited => visited
  | _ + 1, [], visited => visited
  | fuel + 1, current :: queue, visited =>
    let found := fresh visited (next current)
    search next fuel (queue ++ found) (visited ++ found)

/-- One expansion away. -/
def Successor (next : α → List α) (source target : α) : Prop := target ∈ next source

variable {next : α → List α}
variable (fuel : Nat)

theorem subset_search : visited ⊆ search next fuel queue visited := by
  induction fuel generalizing queue visited with
  | zero => exact List.Subset.refl _
  | succ fuel ih =>
    cases queue with
    | nil => exact List.Subset.refl _
    | cons current queue =>
      intro item known
      exact ih (List.mem_append_left _ known)

theorem search_nodup (nodup : visited.Nodup) : (search next fuel queue visited).Nodup := by
  induction fuel generalizing queue visited with
  | zero => exact nodup
  | succ fuel ih =>
    cases queue with
    | nil => exact nodup
    | cons current queue =>
      exact ih (nodup.append (fresh_nodup _ _) fun item old found => (mem_fresh.mp found).2 old)

/-- Everything found is reached from what was visited at the start. -/
theorem search_sound (pending : queue ⊆ visited) (found : item ∈ search next fuel queue visited) :
    ∃ source ∈ visited, Relation.ReflTransGen (Successor next) source item := by
  induction fuel generalizing queue visited with
  | zero => exact ⟨item, found, .refl⟩
  | succ fuel ih =>
    cases queue with
    | nil => exact ⟨item, found, .refl⟩
    | cons current queue =>
      have grown : queue ++ fresh visited (next current) ⊆ visited ++ fresh visited (next current) := by
        intro other member
        rcases List.mem_append.mp member with queued | added
        · exact List.mem_append_left _ (pending (List.mem_cons_of_mem _ queued))
        · exact List.mem_append_right _ added
      obtain ⟨source, known, path⟩ := ih grown found
      rcases List.mem_append.mp known with old | added
      · exact ⟨source, old, path⟩
      · have edge : Successor next current source := (mem_fresh.mp added).1
        exact ⟨current, pending (List.mem_cons_self ..), .head edge path⟩

/-- With fuel for a finite domain the queue runs dry: every found item has
all its successors found. `expanded` is the part of the visited list that has
left the queue. -/
theorem search_closed (expanded : List α) (nodup : (expanded ++ queue).Nodup) (inside : expanded ++ queue ⊆ domain)
    (closed : ∀ item ∈ domain, next item ⊆ domain) (enough : domain.length ≤ expanded.length + fuel)
    (done : ∀ item ∈ expanded, next item ⊆ expanded ++ queue) :
    ∀ item ∈ search next fuel queue (expanded ++ queue),
      next item ⊆ search next fuel queue (expanded ++ queue) := by
  induction fuel generalizing expanded queue with
  | zero =>
    have bound := (List.subperm_of_subset nodup inside).length_le
    have empty : queue = [] := by
      rw [List.length_append] at bound
      exact List.length_eq_zero_iff.mp (by omega)
    subst queue
    intro item member
    exact done item (by simpa [search] using member)
  | succ fuel ih =>
    cases queue with
    | nil =>
      intro item member
      exact done item (by simpa [search] using member)
    | cons current queue =>
      have known : current ∈ expanded ++ current :: queue := by simp
      have added := fun item (member : item ∈ fresh (expanded ++ current :: queue) (next current)) =>
        mem_fresh.mp member
      have split : expanded ++ current :: queue ++ fresh (expanded ++ current :: queue) (next current) =
          (expanded ++ [current]) ++ (queue ++ fresh (expanded ++ current :: queue) (next current)) := by
        simp
      have grownNodup : (expanded ++ current :: queue ++
          fresh (expanded ++ current :: queue) (next current)).Nodup :=
        nodup.append (fresh_nodup _ _) (fun item old found => (added item found).2 old)
      have grownInside : expanded ++ current :: queue ++
          fresh (expanded ++ current :: queue) (next current) ⊆ domain := by
        intro item member
        rcases List.mem_append.mp member with old | found
        · exact inside old
        · exact closed current (inside known) (added item found).1
      have grownDone : ∀ item ∈ expanded ++ [current], next item ⊆ expanded ++ current :: queue ++
          fresh (expanded ++ current :: queue) (next current) := by
        intro item member target edge
        rcases List.mem_append.mp member with old | last
        · exact List.mem_append_left _ (done item old edge)
        · have same : item = current := by simpa using last
          subst item
          by_cases seen : target ∈ expanded ++ current :: queue
          · exact List.mem_append_left _ seen
          · exact List.mem_append_right _ (mem_fresh.mpr ⟨edge, seen⟩)
      simp only [search]
      rw [split] at grownNodup grownInside grownDone ⊢
      exact ih (expanded ++ [current]) grownNodup grownInside (by simp; omega) grownDone

/-- Search from a list of distinct starting points finds exactly what they reach. -/
theorem mem_search_iff (nodup : start.Nodup) (inside : start ⊆ domain) (closed : ∀ item ∈ domain, next item ⊆ domain) :
    item ∈ search next domain.length start start ↔
      ∃ source ∈ start, Relation.ReflTransGen (Successor next) source item := by
  constructor
  · exact search_sound _ (List.Subset.refl _)
  · rintro ⟨source, member, path⟩
    have final := search_closed domain.length [] nodup inside closed
      (by simp) (by simp)
    simp only [List.nil_append] at final
    induction path with
    | refl => exact subset_search _ member
    | tail _ edge found => exact final _ found edge

/-! ### Marking an item when it leaves the queue

The queue may then hold an item several times, and visited ones too. -/

/-- One round of the loop on the queue and the visited list; none once the queue is
empty. -/
def visit (next : α → List α) : List α × List α → Option (List α × List α)
  | ([], _) => none
  | (current :: queue, visited) =>
    if current ∈ visited then some (queue, visited)
    else some (queue ++ (next current).filter (· ∉ visited ++ [current]), visited ++ [current])

/-- The loop comes to its end with this visited list. -/
def Visits (next : α → List α) (state : List α × List α) (visited : List α) : Prop :=
  Relation.ReflTransGen (fun first second => visit next first = some second) state ([], visited)

theorem Visits.of_seen (seen : current ∈ visited) (rest : Visits next (queue, visited) final) :
    Visits next (current :: queue, visited) final :=
  .head (by rw [visit, if_pos seen]) rest

theorem Visits.of_new (new : current ∉ visited)
    (rest : Visits next (queue ++ (next current).filter (· ∉ visited ++ [current]), visited ++ [current]) final) :
    Visits next (current :: queue, visited) final :=
  .head (by rw [visit, if_neg new]) rest

/-- The loop ends: a round visits another item of the domain, or shortens the queue. -/
theorem exists_visits (nodup : visited.Nodup) (known : visited ⊆ domain) (inside : queue ⊆ domain)
    (closed : ∀ item ∈ domain, next item ⊆ domain) : ∃ final, Visits next (queue, visited) final := by
  induction left : domain.length - visited.length using Nat.strongRecOn generalizing queue visited with
  | _ left ih =>
    subst left
    induction queue with
    | nil => exact ⟨visited, .refl⟩
    | cons current queue shorter =>
      by_cases seen : current ∈ visited
      · obtain ⟨final, rest⟩ := shorter fun item member => inside (List.mem_cons_of_mem _ member)
        exact ⟨final, rest.of_seen seen⟩
      · have grown : (visited ++ [current]).Nodup := nodup.append (List.nodup_singleton current)
          fun item old same => seen (List.mem_singleton.mp same ▸ old)
        have within : visited ++ [current] ⊆ domain := List.append_subset.mpr
          ⟨known, fun item same => inside (List.mem_singleton.mp same ▸ List.mem_cons_self ..)⟩
        have bound := (List.subperm_of_subset grown within).length_le
        rw [List.length_append, List.length_singleton] at bound
        obtain ⟨final, rest⟩ := ih (domain.length - (visited ++ [current]).length)
          (by rw [List.length_append, List.length_singleton]; omega) grown within
          (List.append_subset.mpr ⟨fun item member => inside (List.mem_cons_of_mem _ member),
            fun item member => closed current (inside (List.mem_cons_self ..)) (List.mem_of_mem_filter member)⟩) rfl
        exact ⟨final, rest.of_new seen⟩

/-- Induction over the rounds of a loop, from its end: the first of the queue has been visited, or is
visited now. -/
@[elab_as_elim]
theorem Visits.induct {motive : (queue visited : List α) → Visits next (queue, visited) final → Prop}
    (done : motive [] final .refl)
    (ofSeen : ∀ current queue visited (seen : current ∈ visited) (rest : Visits next (queue, visited) final),
      motive queue visited rest → motive (current :: queue) visited (rest.of_seen seen))
    (ofNew : ∀ current queue visited (new : current ∉ visited)
      (rest : Visits next (queue ++ (next current).filter (· ∉ visited ++ [current]), visited ++ [current]) final),
      motive _ _ rest → motive (current :: queue) visited (rest.of_new new))
    {queue visited : List α} (visits : Visits next (queue, visited) final) : motive queue visited visits := by
  have rounds {state : List α × List α} (visits : Visits next state final) : motive state.1 state.2 visits := by
    induction visits using Relation.ReflTransGen.head_induction_on with
    | refl => exact done
    | @head first second step rest ih =>
      obtain ⟨queue, visited⟩ := first
      cases queue with
      | nil => cases step
      | cons current queue =>
        rw [visit] at step
        split at step
        · rename_i seen
          cases step
          exact ofSeen current queue visited seen rest ih
        · rename_i new
          cases step
          exact ofNew current queue visited new rest ih
  exact rounds visits

/-- What a loop has visited in the end, it reaches from the queue or had visited before. -/
theorem Visits.sound (visits : Visits next state final) (found : item ∈ final) :
    item ∈ state.2 ∨ ∃ source ∈ state.1, Relation.ReflTransGen (Successor next) source item := by
  obtain ⟨queue, visited⟩ := state
  induction visits using Visits.induct with
  | done => exact .inl found
  | ofSeen current queue visited seen rest ih =>
    rcases ih with old | ⟨source, queued, path⟩
    · exact .inl old
    · exact .inr ⟨source, List.mem_cons_of_mem _ queued, path⟩
  | ofNew current queue visited new rest ih =>
    rcases ih with old | ⟨source, queued, path⟩
    · rcases List.mem_append.mp old with old | last
      · exact .inl old
      · exact .inr ⟨current, List.mem_cons_self .., List.mem_singleton.mp last ▸ .refl⟩
    · rcases List.mem_append.mp queued with queued | added
      · exact .inr ⟨source, List.mem_cons_of_mem _ queued, path⟩
      · exact .inr ⟨current, List.mem_cons_self .., .head (List.mem_of_mem_filter added) path⟩

/-- Nothing queued or visited is lost, and the successors of what is visited are
visited in the end. -/
theorem Visits.closed (visits : Visits next state final) (done : ∀ item ∈ state.2, next item ⊆ state.2 ++ state.1) :
    state.2 ++ state.1 ⊆ final ∧ ∀ item ∈ final, next item ⊆ final := by
  obtain ⟨queue, visited⟩ := state
  induction visits using Visits.induct with
  | done => simpa using done
  | ofSeen current queue visited seen rest ih =>
    have same : visited ++ current :: queue ⊆ visited ++ queue := by
      intro item member
      rcases List.mem_append.mp member with old | queued
      · exact List.mem_append_left _ old
      · rcases List.mem_cons.mp queued with rfl | queued
        · exact List.mem_append_left _ seen
        · exact List.mem_append_right _ queued
    obtain ⟨kept, closed⟩ := ih fun item member => List.Subset.trans (done item member) same
    exact ⟨List.Subset.trans same kept, closed⟩
  | ofNew current queue visited new rest ih =>
    have same : visited ++ current :: queue ⊆ (visited ++ [current]) ++
        (queue ++ (next current).filter (· ∉ visited ++ [current])) := by
      intro item
      simp only [List.mem_append, List.mem_cons]
      tauto
    obtain ⟨kept, closed⟩ := ih fun item member => by
      rcases List.mem_append.mp member with old | last
      · exact List.Subset.trans (done item old) same
      · obtain rfl := List.mem_singleton.mp last
        intro target edge
        by_cases known : target ∈ visited ++ [item]
        · exact List.mem_append_left _ known
        · exact List.mem_append_right _ (List.mem_append_right _ (List.mem_filter.mpr ⟨edge, by simpa using known⟩))
    exact ⟨List.Subset.trans same kept, closed⟩

/-- A loop from some items visits exactly what they reach. -/
theorem Visits.mem_iff (visits : Visits next (start, []) final) :
    item ∈ final ↔ ∃ source ∈ start, Relation.ReflTransGen (Successor next) source item := by
  constructor
  · exact fun found => (visits.sound found).resolve_left List.not_mem_nil
  · rintro ⟨source, member, path⟩
    obtain ⟨kept, closed⟩ := visits.closed fun _ member => absurd member List.not_mem_nil
    induction path with
    | refl => exact kept (by simpa using member)
    | tail _ edge found => exact closed _ found edge

theorem Visits.nodup (visits : Visits next state final) (nodup : state.2.Nodup) : final.Nodup := by
  obtain ⟨queue, visited⟩ := state
  induction visits using Visits.induct with
  | done => exact nodup
  | ofSeen current queue visited seen rest ih => exact ih nodup
  | ofNew current queue visited new rest ih =>
    exact ih (nodup.append (List.nodup_singleton current) fun item old same => new (List.mem_singleton.mp same ▸ old))

/-! Both loops discover the items in the same order: what the first has queued is
what the queue of the second holds beyond the visited list, each once. -/

theorem fresh_congr {first second : List α} (same : ∀ item, item ∈ first ↔ item ∈ second) (items : List α) :
    fresh first items = fresh second items := by
  induction items generalizing first second with
  | nil => rfl
  | cons head rest ih =>
    have grown : ∀ item, item ∈ head :: first ↔ item ∈ head :: second := by
      intro item
      rw [List.mem_cons, List.mem_cons, same]
    rw [fresh, fresh, ih same, ih grown]
    simp only [same]

theorem fresh_append (visited first second : List α) :
    fresh visited (first ++ second) = fresh visited first ++ fresh (visited ++ first) second := by
  induction first generalizing visited with
  | nil => rw [List.append_nil, List.nil_append, fresh, List.nil_append]
  | cons head rest ih =>
    rw [List.cons_append, fresh, fresh, ih, ih]
    split
    · rename_i known
      congr 1
      apply fresh_congr
      intro item
      simp only [List.mem_append, List.mem_cons]
      constructor
      · exact fun member => member.imp id .inr
      · rintro (old | rfl | later)
        · exact .inl old
        · exact .inl known
        · exact .inr later
    · rw [List.cons_append]
      congr 2
      apply fresh_congr
      intro item
      simp only [List.mem_append, List.mem_cons]
      tauto

/-- Leaving out visited items beforehand makes no difference. -/
theorem fresh_filter {dropped : List α} (known : dropped ⊆ visited) (items : List α) :
    fresh visited (items.filter (· ∉ dropped)) = fresh visited items := by
  induction items generalizing visited with
  | nil => rfl
  | cons head rest ih =>
    by_cases out : head ∈ dropped
    · rw [List.filter_cons_of_neg (by simpa using out), fresh, if_pos (known out), ih known]
    · rw [List.filter_cons_of_pos (by simpa using out), fresh, fresh, ih known,
        ih (fun item member => List.mem_cons_of_mem _ (known member))]

theorem prefix_search (queue visited : List α) : visited <+: search next fuel queue visited := by
  induction fuel generalizing queue visited with
  | zero => exact List.prefix_refl _
  | succ fuel ih =>
    cases queue with
    | nil => exact List.prefix_refl _
    | cons current queue => exact (List.prefix_append ..).trans (ih _ _)

theorem search_prefix {fuel more : Nat} (le : fuel ≤ more) (queue visited : List α) :
    search next fuel queue visited <+: search next more queue visited := by
  induction fuel generalizing more queue visited with
  | zero => exact prefix_search more queue visited
  | succ fuel ih =>
    obtain ⟨more, rfl⟩ := Nat.exists_eq_add_of_le' (Nat.one_le_of_lt (Nat.lt_of_succ_le le))
    cases queue with
    | nil => exact List.prefix_refl _
    | cons current queue => exact ih (Nat.le_of_succ_le_succ le) _ _

/-- With enough fuel the search finds what the loop visits, in the same order. -/
theorem Visits.exists_fuel (visits : Visits next state final) :
    ∃ rounds, ∀ fuel, rounds ≤ fuel →
      search next fuel (fresh state.2 state.1) (state.2 ++ fresh state.2 state.1) = final := by
  obtain ⟨queue, visited⟩ := state
  induction visits using Visits.induct with
  | done =>
    refine ⟨0, fun fuel _ => ?_⟩
    cases fuel <;> simp [fresh, search]
  | ofSeen current queue visited seen rest ih =>
    obtain ⟨rounds, found⟩ := ih
    refine ⟨rounds, fun fuel enough => ?_⟩
    rw [fresh, if_pos seen]
    exact found fuel enough
  | ofNew current queue visited new rest ih =>
    obtain ⟨rounds, found⟩ := ih
    refine ⟨rounds + 1, fun fuel enough => ?_⟩
    obtain ⟨fuel, rfl⟩ := Nat.exists_eq_add_of_le' (Nat.one_le_of_lt (Nat.lt_of_succ_le enough))
    rw [← found fuel (Nat.le_of_succ_le_succ enough)]
    have same : fresh (visited ++ [current]) queue = fresh (current :: visited) queue :=
      fresh_congr (by simp [or_comm]) queue
    have dropped : visited ++ [current] ⊆ visited ++ [current] ++ queue := List.subset_append_left ..
    have discovered : fresh (visited ++ [current] ++ queue) (next current) =
        fresh (visited ++ current :: fresh (current :: visited) queue) (next current) := by
      apply fresh_congr
      intro item
      simp only [List.mem_append, List.mem_cons, mem_fresh, List.not_mem_nil, or_false]
      tauto
    rw [fresh_append, fresh_filter dropped, discovered, same, fresh, if_neg new, search, List.append_assoc,
      List.append_assoc, List.cons_append, List.singleton_append]

/-- The bound of the search is enough for it. -/
theorem Visits.eq_search (visits : Visits next (start, []) final) (inside : start ⊆ domain)
    (closed : ∀ item ∈ domain, next item ⊆ domain) :
    search next domain.length (fresh [] start) (fresh [] start) = final := by
  obtain ⟨rounds, found⟩ := visits.exists_fuel
  have long := found (domain.length + rounds) (Nat.le_add_left ..)
  rw [List.nil_append] at long
  have former : search next domain.length (fresh [] start) (fresh [] start) <+:
      search next (domain.length + rounds) (fresh [] start) (fresh [] start) := search_prefix (Nat.le_add_right ..) ..
  rw [long] at former
  have all : final ⊆ search next domain.length (fresh [] start) (fresh [] start) := by
    intro item member
    obtain ⟨source, asked, path⟩ := visits.mem_iff.mp member
    apply (mem_search_iff (fresh_nodup ..) (fun item fresh => inside (mem_fresh.mp fresh).1) closed).mpr
    exact ⟨source, mem_fresh.mpr ⟨asked, List.not_mem_nil⟩, path⟩
  exact former.eq_of_length_le (List.subperm_of_subset (visits.nodup List.nodup_nil) all).length_le

end EkaCI.Lib
