import Mathlib.Data.Set.Card

/-! Marks on the nodes of a directed graph that are removed in post-order: a node
loses its mark after all the nodes that it leads to. A traversal of this kind can be
given up at any time, and be taken up again later. -/

namespace EkaCI.Lib

variable {A : Type*}

/-- One edge or more lead from the source to the target. -/
def Leads (edges : List (A × A)) : A → A → Prop :=
  Relation.TransGen fun source target => (source, target) ∈ edges

def Acyclic (edges : List (A × A)) : Prop := ∀ node, ¬ Leads edges node node

variable {edges : List (A × A)} {source target : A}

theorem Leads.mem_targets (leads : Leads edges source target) : target ∈ edges.map Prod.snd := by
  cases leads with
  | single edge => exact List.mem_map_of_mem edge
  | tail _ edge => exact List.mem_map_of_mem edge

/-- The number of nodes that a node leads to goes down along the edges. -/
theorem Acyclic.exists_rank (acyclic : Acyclic edges) :
    ∃ rank : A → Nat, ∀ source target, Leads edges source target → rank target < rank source := by
  have finite : ∀ node, {target | Leads edges node target}.Finite := fun node =>
    (List.finite_toSet (edges.map Prod.snd)).subset fun _ leads => leads.mem_targets
  refine ⟨fun node => {target | Leads edges node target}.ncard, fun source target leads => ?_⟩
  apply Set.ncard_lt_ncard _ (finite source)
  constructor
  · exact fun _ further => leads.trans further
  · exact fun all => acyclic target (all leads)

theorem acyclic_of_rank (rank : A → Nat) (descends : ∀ edge ∈ edges, rank edge.2 < rank edge.1) : Acyclic edges := by
  have below : ∀ source target, Leads edges source target → rank target < rank source := by
    intro source target leads
    induction leads with
    | single edge => exact descends _ edge
    | tail _ edge ih => exact (descends _ edge).trans ih
  exact fun node leads => Nat.lt_irrefl _ (below node node leads)

section Marks

variable (next : A → A → Prop)

/-- A way on which every node is marked, except perhaps the last one. -/
def MarkedPath (marked : Set A) : A → A → Prop :=
  Relation.ReflTransGen fun source target => source ∈ marked ∧ next source target

/-- Marks were removed only from nodes that marked ways from the roots lead to, and
what a node leads to lost its mark before the node did. -/
structure ClearsFrom (roots before after : Set A) : Prop where
  within : after ⊆ before
  ordered : ∀ node ∈ before, node ∉ after → ∀ target, next node target → target ∉ after
  reached : ∀ node ∈ before, node ∉ after → ∃ root ∈ roots, MarkedPath next before root node

/-- No node is left marked that a marked way from the roots led to. -/
def ClearsAll (roots before after : Set A) : Prop :=
  ∀ root ∈ roots, ∀ node, MarkedPath next before root node → node ∉ after

end Marks

variable {next : A → A → Prop} {roots more before middle after : Set A} {node root : A}

theorem MarkedPath.mono (within : after ⊆ before) (path : MarkedPath next after root node) :
    MarkedPath next before root node :=
  Relation.ReflTransGen.mono (fun _ _ step => ⟨within step.1, step.2⟩) _ _ path

namespace ClearsFrom

theorem refl (next : A → A → Prop) (roots marked : Set A) : ClearsFrom next roots marked marked where
  within := fun _ => id
  ordered := fun _ held lost => absurd held lost
  reached := fun _ held lost => absurd held lost

theorem mono (clears : ClearsFrom next roots before after) (wider : roots ⊆ more) :
    ClearsFrom next more before after where
  within := clears.within
  ordered := clears.ordered
  reached := fun node held lost =>
    let ⟨root, member, path⟩ := clears.reached node held lost
    ⟨root, wider member, path⟩

theorem trans (first : ClearsFrom next roots before middle) (second : ClearsFrom next more middle after) :
    ClearsFrom next (roots ∪ more) before after where
  within := fun _ held => first.within (second.within held)
  ordered := by
    intro node held lost target edge
    by_cases kept : node ∈ middle
    · exact second.ordered node kept lost target edge
    · exact fun marked => first.ordered node held kept target edge (second.within marked)
  reached := by
    intro node held lost
    by_cases kept : node ∈ middle
    · obtain ⟨root, member, path⟩ := second.reached node kept lost
      exact ⟨root, .inr member, path.mono first.within⟩
    · obtain ⟨root, member, path⟩ := first.reached node held kept
      exact ⟨root, .inl member, path⟩

/-- A way to a node that has kept its mark is still marked. -/
theorem path (clears : ClearsFrom next roots before after) (path : MarkedPath next before root node)
    (kept : node ∈ after) : MarkedPath next after root node := by
  induction path using Relation.ReflTransGen.head_induction_on with
  | refl => exact .refl
  | @head source target step rest ih =>
    refine .head ⟨?_, step.2⟩ ih
    by_contra lost
    have cleared := clears.ordered source step.1 lost target step.2
    -- the target is the node itself or the source of the next step
    rcases Relation.ReflTransGen.cases_head ih with same | ⟨_, first, _⟩
    · exact cleared (same ▸ kept)
    · exact cleared first.1

/-- A node may be given up while its successors are visited. -/
theorem interrupted (marked : node ∈ before) (clears : ClearsFrom next {target | next node target} before after) :
    ClearsFrom next {node} before after where
  within := clears.within
  ordered := clears.ordered
  reached := fun other held lost =>
    let ⟨_, edge, path⟩ := clears.reached other held lost
    ⟨node, rfl, .head ⟨marked, edge⟩ path⟩

/-- A node may lose its mark once its successors have been visited. -/
theorem visit (marked : node ∈ before) (clears : ClearsFrom next {target | next node target} before middle)
    (all : ClearsAll next {target | next node target} before middle)
    (removed : ∀ other, other ≠ node → (other ∈ after ↔ other ∈ middle)) (within : after ⊆ middle) :
    ClearsFrom next {node} before after where
  within := fun _ held => clears.within (within held)
  ordered := by
    intro other held lost target edge
    by_cases same : other = node
    · subst same
      exact fun left => all target edge target .refl (within left)
    · rw [removed other same] at lost
      exact fun left => clears.ordered other held lost target edge (within left)
  reached := by
    intro other held lost
    by_cases same : other = node
    · exact ⟨node, rfl, same ▸ .refl⟩
    · rw [removed other same] at lost
      exact (interrupted marked clears).reached other held lost

end ClearsFrom

namespace ClearsAll

theorem trans (first : ClearsAll next roots before middle) (clears : ClearsFrom next roots before middle)
    (later : after ⊆ middle) (second : ClearsAll next more middle after) :
    ClearsAll next (roots ∪ more) before after := by
  intro root member node path left
  rcases member with member | member
  · exact first root member node path (later left)
  · exact second root member node (clears.path path (later left)) left

/-- From a node without a mark no marked way leads anywhere. -/
theorem of_unmarked (unmarked : node ∉ before) : ClearsAll next {node} before before := by
  rintro root rfl other path
  rcases Relation.ReflTransGen.cases_head path with same | ⟨_, first, _⟩
  · exact same ▸ unmarked
  · exact absurd first.1 unmarked

theorem visit (all : ClearsAll next {target | next node target} before middle) (within : after ⊆ middle)
    (lost : node ∉ after) : ClearsAll next {node} before after := by
  rintro root rfl other path
  rcases Relation.ReflTransGen.cases_head path with same | ⟨target, first, rest⟩
  · exact same ▸ lost
  · exact fun left => all target first.2 other rest (within left)

/-- A traversal that was given up can be completed by a later one. -/
theorem resume (clears : ClearsFrom next roots before middle) (all : ClearsAll next more middle after)
    (within : after ⊆ middle) : ClearsAll next more before after :=
  fun root member node path left => all root member node (clears.path path (within left)) left

end ClearsAll

end EkaCI.Lib
