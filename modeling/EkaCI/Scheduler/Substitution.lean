import EkaCI.Graph.Mirror
import EkaCI.Scheduler.System

/-! The loop of the ingress service that marks what a substitution hit brings along,
round by round, and what it has marked when it ends. -/

namespace EkaCI

open Lib

variable {DrvId : Type} [DecidableEq DrvId]

/-- The queue, the visited set and the messages sent to the recorder so far. -/
structure SubstitutionSearch (DrvId : Type) where
  queue : List DrvId
  visited : List DrvId
  sent : List (RecorderTask DrvId)

/-- A drv that the dry run counts as available, and that is neither finished nor
being built. A drv that the view does not hold is neither. -/
structure Cached (view : SharedView DrvId) (report : DryRunReport DrvId) (drvId : DrvId) : Prop where
  available : drvId ∉ report.willBuild
  idle : ∀ state, view.getBuildState drvId = some state → state.isTerminal = false ∧ state ≠ .building

/-- What a root reaches along dependencies, with every drv on the way cached. -/
inductive CachedPath (view : SharedView DrvId) (report : DryRunReport DrvId) (root : DrvId) : DrvId → Prop where
  | root (cached : Cached view report root) : CachedPath view report root root
  | dependency {drvId reference : DrvId} (path : CachedPath view report root drvId)
      (edge : reference ∈ view.getDependencies drvId) (cached : Cached view report reference) :
      CachedPath view report root reference

omit [DecidableEq DrvId] in
theorem CachedPath.root_cached {view : SharedView DrvId} {report : DryRunReport DrvId} {root drvId : DrvId}
    (path : CachedPath view report root drvId) : Cached view report root := by
  induction path with
  | root cached => exact cached
  | dependency _ _ _ ih => exact ih

namespace SubstitutionSearch

variable (view : SharedView DrvId) (report : DryRunReport DrvId)

def start (root : DrvId) : SubstitutionSearch DrvId := ⟨[root], [], []⟩

/-- One round; none once the queue is empty. -/
def round (search : SubstitutionSearch DrvId) : Option (SubstitutionSearch DrvId) :=
  match search.queue with
  | [] => none
  | current :: queue =>
    if current ∈ search.visited then some { search with queue := queue }
    else
      let visited := search.visited ++ [current]
      if current ∈ report.willBuild then some { search with queue := queue, visited := visited }
      else if (view.getBuildState current).any fun state => state.isTerminal || state = .building then
        some { search with queue := queue, visited := visited }
      else some
        { queue := queue ++ (view.getDependencies current).filter (· ∉ visited)
          visited := visited
          sent := search.sent ++ [⟨current, .completed .success⟩] }

/-- The loop comes to its end. -/
def Finishes (root : DrvId) (final : SubstitutionSearch DrvId) : Prop :=
  Relation.ReflTransGen (fun first second => first.round view report = some second) (start root) final ∧
    final.queue = []

/-- The cached closure is marked, each drv of it once, and the root first. -/
structure MarksClosure (root : DrvId) (final : SubstitutionSearch DrvId) : Prop where
  successful : ∀ task ∈ final.sent, task.result = .completed .success
  once : (final.sent.map RecorderTask.derivation).Nodup
  exact : ∀ drvId, drvId ∈ final.sent.map RecorderTask.derivation ↔ CachedPath view report root drvId
  first : ∀ task, final.sent.head? = some task → task.derivation = root

variable {view report}

omit [DecidableEq DrvId] in
theorem getDependencies_subset_keys {drvId reference : DrvId} (edge : reference ∈ view.getDependencies drvId) :
    drvId ∈ view.keys := by
  cases found : view.get drvId with
  | none => simp [SharedView.getDependencies, found] at edge
  | some node => exact Table.mem_keys_of_get found

theorem skipsSubstitution_iff {drvId : DrvId} :
    System.skipsSubstitution view report drvId = false ↔ Cached view report drvId := by
  rw [System.skipsSubstitution, Bool.or_eq_false_iff, decide_eq_false_iff_not]
  constructor
  · rintro ⟨available, idle⟩
    refine ⟨available, fun state held => ?_⟩
    rw [held] at idle
    simpa using idle
  · rintro ⟨available, idle⟩
    refine ⟨available, ?_⟩
    cases held : view.getBuildState drvId with
    | none => rfl
    | some state => simpa using idle state held

variable (view report)

/-- Where the loop goes on from a drv. -/
def next (drvId : DrvId) : List DrvId :=
  if System.skipsSubstitution view report drvId then [] else view.getDependencies drvId

/-- What is sent for the visited drvs. -/
def marked (visited : List DrvId) : List (RecorderTask DrvId) :=
  (visited.filter fun drvId => !System.skipsSubstitution view report drvId).map (⟨·, .completed .success⟩)

/-- The messages are determined by what is visited. -/
def ofVisited (state : List DrvId × List DrvId) : SubstitutionSearch DrvId :=
  ⟨state.1, state.2, marked view report state.2⟩

variable {view report}

theorem marked_snoc (visited : List DrvId) (drvId : DrvId) : marked view report (visited ++ [drvId]) =
    marked view report visited ++
      if System.skipsSubstitution view report drvId then [] else [⟨drvId, .completed .success⟩] := by
  rw [marked, marked, List.filter_append, List.map_append]
  cases skips : System.skipsSubstitution view report drvId <;> simp [skips]

theorem round_ofVisited (state : List DrvId × List DrvId) :
    (ofVisited view report state).round view report =
      (visit (next view report) state).map (ofVisited view report) := by
  obtain ⟨queue, visited⟩ := state
  cases queue with
  | nil => rfl
  | cons current queue =>
    by_cases seen : current ∈ visited
    · simp [round, visit, ofVisited, seen]
    · simp only [round, visit, ofVisited, next, marked_snoc, seen, if_false, Option.map_some, System.skipsSubstitution]
      by_cases builds : current ∈ report.willBuild
      · simp [builds]
      · rcases (view.getBuildState current).eq_none_or_eq_some with unknown | ⟨state, held⟩
        · simp [builds, unknown]
        · by_cases idle : state.isTerminal = true ∨ state = .building <;> simp [builds, held, idle]

theorem finishes_iff {root : DrvId} {final : SubstitutionSearch DrvId} : Finishes view report root final ↔
    ∃ visited, Visits (next view report) ([root], []) visited ∧ final = ofVisited view report ([], visited) := by
  constructor
  · rintro ⟨rounds, drained⟩
    have follows : ∃ state, Relation.ReflTransGen (fun first second => visit (next view report) first = some second)
        ([root], []) state ∧ final = ofVisited view report state := by
      clear drained
      induction rounds with
      | refl => exact ⟨([root], []), .refl, rfl⟩
      | tail _ step ih =>
        obtain ⟨state, path, rfl⟩ := ih
        rw [round_ofVisited, Option.map_eq_some_iff] at step
        obtain ⟨after, visits, rfl⟩ := step
        exact ⟨after, path.tail visits, rfl⟩
    obtain ⟨⟨queue, visited⟩, path, rfl⟩ := follows
    obtain rfl : queue = [] := drained
    exact ⟨visited, path, rfl⟩
  · rintro ⟨visited, visits, rfl⟩
    refine ⟨?_, rfl⟩
    refine Relation.ReflTransGen.lift (ofVisited view report) (fun first second step => ?_) _ _ visits
    have moved : (ofVisited view report first).round view report = some (ofVisited view report second) := by
      rw [round_ofVisited, step, Option.map_some]
    exact moved

/-- Every drv that the loop can meet. -/
def domain (view : SharedView DrvId) (root : DrvId) : List DrvId := root :: view.keys.flatMap view.getDependencies

theorem next_subset_domain (root : DrvId) : ∀ drvId ∈ domain view root, next view report drvId ⊆ domain view root := by
  intro drvId _ reference edge
  rw [next] at edge
  split at edge
  · cases edge
  · exact List.mem_cons_of_mem _ (List.mem_flatMap.mpr ⟨drvId, getDependencies_subset_keys edge, edge⟩)

omit [DecidableEq DrvId] in
theorem root_subset_domain (root : DrvId) : [root] ⊆ domain view root := by simp [domain]

theorem mem_marked {visited : List DrvId} {drvId : DrvId} :
    drvId ∈ (marked view report visited).map RecorderTask.derivation ↔ drvId ∈ visited ∧ Cached view report drvId := by
  rw [marked, List.map_map, List.mem_map]
  simp only [List.mem_filter, Bool.not_eq_true', skipsSubstitution_iff, Function.comp_apply, exists_eq_right]

/-- Where the root leads through cached drvs only, the loop goes, and it marks
what is cached itself. -/
theorem cachedPath_iff {root drvId : DrvId} : CachedPath view report root drvId ↔
    Relation.ReflTransGen (Successor (next view report)) root drvId ∧ Cached view report drvId := by
  constructor
  · intro path
    induction path with
    | root cached => exact ⟨.refl, cached⟩
    | dependency _ edge cached ih =>
      refine ⟨ih.1.tail ?_, cached⟩
      rw [Successor, next, skipsSubstitution_iff.mpr ih.2]
      exact edge
  · rintro ⟨path, cached⟩
    induction path with
    | refl => exact .root cached
    | @tail middle target _ edge ih =>
      rw [Successor, next] at edge
      split at edge
      · cases edge
      · rename_i idle
        exact .dependency (ih (skipsSubstitution_iff.mp (Bool.not_eq_true _ ▸ idle))) edge cached

theorem visited_head {root : DrvId} {visited : List DrvId} (visits : Visits (next view report) ([root], []) visited) :
    ∃ others, visited = root :: others := by
  have same := visits.eq_search (root_subset_domain root) (next_subset_domain root)
  have head : [root] <+: search (next view report) (domain view root).length [root] [root] := prefix_search ..
  obtain ⟨others, found⟩ := head
  have single : fresh [] [root] = [root] := rfl
  rw [single, ← found] at same
  exact ⟨others, same.symm⟩

/-- The loop ends, whatever the view and the report, and has then marked exactly
the cached closure. -/
theorem finishes_marksClosure (view : SharedView DrvId) (report : DryRunReport DrvId) (root : DrvId) :
    (∃ final, Finishes view report root final) ∧
      ∀ final, Finishes view report root final → MarksClosure view report root final := by
  constructor
  · have visited : ∃ visited, Visits (next view report) ([root], []) visited :=
      exists_visits List.nodup_nil (List.nil_subset _) (root_subset_domain root) (next_subset_domain root)
    obtain ⟨visited, visits⟩ := visited
    exact ⟨_, finishes_iff.mpr ⟨visited, visits, rfl⟩⟩
  · intro final finishes
    obtain ⟨visited, visits, rfl⟩ := finishes_iff.mp finishes
    have exact : ∀ drvId, drvId ∈ (marked view report visited).map RecorderTask.derivation ↔
        CachedPath view report root drvId := by
      intro drvId
      rw [mem_marked, visits.mem_iff, cachedPath_iff]
      simp only [List.mem_singleton, exists_eq_left]
    refine ⟨?_, ?_, exact, ?_⟩
    · intro task sent
      obtain ⟨_, _, rfl⟩ := List.mem_map.mp sent
      rfl
    · have once := (visits.nodup List.nodup_nil).filter fun drvId => !System.skipsSubstitution view report drvId
      rw [ofVisited, marked, List.map_map]
      exact (List.map_id _).symm ▸ once
    · intro task head
      obtain ⟨others, rfl⟩ := visited_head visits
      cases skips : System.skipsSubstitution view report root with
      | false =>
        simp only [ofVisited, marked, List.filter_cons, skips, Bool.not_false, if_true, List.map_cons, List.head?_cons,
          Option.some.injEq] at head
        rw [← head]
      | true =>
        -- nothing is sent for a root that is skipped
        have sent := (exact task.derivation).mp (List.mem_map_of_mem (List.mem_of_head? head))
        rw [skipsSubstitution_iff.mpr sent.root_cached] at skips
        cases skips

theorem substitute_eq {system : System DrvId} {root : DrvId} {final : SubstitutionSearch DrvId}
    (finishes : Finishes system.view report root final) : system.substitute report root = system.report final.sent := by
  obtain ⟨visited, visits, rfl⟩ := finishes_iff.mp finishes
  have same := visits.eq_search (root_subset_domain root) (next_subset_domain root)
  rw [System.substitute, ofVisited, marked, ← same]
  rfl

end SubstitutionSearch

end EkaCI
