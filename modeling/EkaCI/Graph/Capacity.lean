import EkaCI.Graph.Transparency

/-! A cache that does not hold the whole graph shows in its answers. The drvs that
a query names are loaded one after the other, and each one that is not resident
moves the others a place closer to eviction; what a drv that came again has lost is
not reloaded, since the drv is resident. -/

namespace EkaCI

open Lib

variable {DrvId : Type} [DecidableEq DrvId]

namespace Database

/-- No drv depends on itself. -/
def Acyclic (db : Database DrvId) : Prop := ∀ drvId, ¬ Relation.TransGen db.Dependent drvId drvId

end Database

namespace GraphService

/-- Every edge of the graph is a row of the table. -/
def Grounded (service : GraphService DrvId) : Prop :=
  ∀ source target, target ∈ service.graph.getDependents source → (target, source) ∈ service.db.refs

/-- A drv is not among the most recently inserted ones. -/
def Deep (service : GraphService DrvId) (drvId : DrvId) (depth : Nat) : Prop :=
  drvId ∉ service.graph.nodes.keys.take depth

variable {service : GraphService DrvId} {now : Instant} {drvId other : DrvId} {depth : Nat}
  {request : Request DrvId}

theorem ensureLoaded_frame (service : GraphService DrvId) (now : Instant) (drvId : DrvId) :
    (ensureLoaded now service drvId).db = service.db ∧
      (ensureLoaded now service drvId).graph.nodes.cap = service.graph.nodes.cap := by
  cases resident : service.graph.nodes.contains drvId with
  | true =>
    rw [ensureLoaded_of_resident now resident]
    exact ⟨rfl, rfl⟩
  | false =>
    cases stored : service.db.getDrv drvId with
    | none =>
      rw [ensureLoaded_of_unknown now stored]
      exact ⟨rfl, rfl⟩
    | some drv =>
      obtain ⟨-, db, -, cap, -⟩ := foldl_insertRef (service.db.edgesOf drvId) (service.insertDrv now drv)
      rw [ensureLoaded_eq now resident stored, cacheNode_db, cacheNode_graph, db, cap, insertDrv_db, insertDrv_graph]
      exact ⟨rfl, LruCache.push_cap ..⟩

theorem reloads_frame (seeds : List DrvId) (service : GraphService DrvId) (now : Instant) :
    (seeds.foldl (ensureLoaded now) service).db = service.db ∧
      (seeds.foldl (ensureLoaded now) service).graph.nodes.cap = service.graph.nodes.cap := by
  induction seeds generalizing service with
  | nil => exact ⟨rfl, rfl⟩
  | cons seed rest ih =>
    obtain ⟨db, cap⟩ := ensureLoaded_frame service now seed
    obtain ⟨later, capLater⟩ := ih (ensureLoaded now service seed)
    exact ⟨later.trans db, capLater.trans cap⟩

theorem ensureLoaded_keys (now : Instant) (absent : drvId ∉ service.graph.nodes.keys)
    (known : drvId ∈ service.db.drvs.keys) : ∃ rest,
      (ensureLoaded now service drvId).graph.nodes.keys = drvId :: rest ∧ rest <+: service.graph.nodes.keys := by
  obtain ⟨drv, stored⟩ := Table.get_of_mem_keys known
  have evicted : service.graph.nodes.contains drvId = false :=
    Bool.eq_false_iff.mpr fun present => absent (LruCache.contains_iff.mp present)
  obtain rfl : drv.drvPath = drvId := service.db.keyed drvId drv stored
  obtain ⟨-, -, keys, -, -⟩ := foldl_insertRef (service.db.edgesOf drv.drvPath) (service.insertDrv now drv)
  rw [ensureLoaded_eq now evicted stored, cacheNode_graph, keys, insertDrv_graph]
  exact LruCache.push_keys_of_absent _ _ (LruCache.contains_eq_false_iff.mp evicted)

omit [DecidableEq DrvId] in
theorem Deep.of_le {shallow : Nat} (deep : service.Deep drvId depth) (le : shallow ≤ depth) :
    service.Deep drvId shallow :=
  fun member => deep (List.take_subset_take_left _ le member)

theorem Deep.miss (deep : service.Deep drvId depth) (now : Instant) (different : drvId ≠ other)
    (absent : other ∉ service.graph.nodes.keys) (known : other ∈ service.db.drvs.keys) :
    (ensureLoaded now service other).Deep drvId (depth + 1) := by
  obtain ⟨rest, keys, older⟩ := ensureLoaded_keys now absent known
  intro member
  rw [keys, List.take_succ_cons, List.mem_cons] at member
  obtain same | member := member
  · exact different same
  · exact deep ((older.take depth).subset member)

theorem Deep.ensureLoaded (deep : service.Deep drvId depth) (now : Instant) (different : drvId ≠ other) :
    (ensureLoaded now service other).Deep drvId depth := by
  by_cases present : other ∈ service.graph.nodes.keys
  · rw [ensureLoaded_of_resident now (LruCache.contains_iff.mpr present)]
    exact deep
  · by_cases known : other ∈ service.db.drvs.keys
    · exact (deep.miss now different present known).of_le (Nat.le_succ depth)
    · rw [ensureLoaded_of_unknown now (Table.get_none_iff.mpr known)]
      exact deep

theorem Deep.reloads (deep : service.Deep drvId depth) (now : Instant) (seeds : List DrvId) (apart : drvId ∉ seeds) :
    (seeds.foldl (GraphService.ensureLoaded now) service).Deep drvId depth := by
  induction seeds generalizing service with
  | nil => exact deep
  | cons seed rest ih =>
    obtain ⟨different, apart⟩ := not_or.mp (mt List.mem_cons.mpr apart)
    exact ih (deep.ensureLoaded now different) apart

theorem Deep.moved (deep : service.Deep drvId depth) (now : Instant) (seeds : List DrvId) (apart : drvId ∉ seeds)
    (known : ∀ seed ∈ seeds, seed ∈ service.db.drvs.keys) (missing : ∃ seed ∈ seeds, seed ∉ service.graph.nodes.keys) :
    (seeds.foldl (GraphService.ensureLoaded now) service).Deep drvId (depth + 1) := by
  induction seeds with
  | nil =>
    obtain ⟨_, member, -⟩ := missing
    cases member
  | cons seed rest ih =>
    obtain ⟨different, apart⟩ := not_or.mp (mt List.mem_cons.mpr apart)
    rw [List.forall_mem_cons] at known
    rw [List.foldl_cons]
    by_cases present : seed ∈ service.graph.nodes.keys
    · -- nothing has changed so far, so the missing one is still to come
      rw [ensureLoaded_of_resident now (LruCache.contains_iff.mpr present)]
      obtain ⟨lost, member, absent⟩ := missing
      obtain rfl | member := List.mem_cons.mp member
      · exact absurd present absent
      · exact ih apart known.2 ⟨lost, member, absent⟩
    · exact (deep.miss now different present known.1).reloads now rest apart

def otherRows (service : GraphService DrvId) (drvId : DrvId) : List DrvId := service.db.drvs.keys.erase drvId

theorem Deep.pass (deep : service.Deep drvId depth) (now : Instant)
    (tight : service.graph.nodes.cap < service.db.drvs.keys.length) :
    ((service.otherRows drvId).foldl (GraphService.ensureLoaded now) service).Deep drvId (depth + 1) := by
  have apart : drvId ∉ service.otherRows drvId := service.db.drvs.nodup.not_mem_erase
  by_cases resident : drvId ∈ service.graph.nodes.keys
  · apply deep.moved now _ apart (fun seed member => List.mem_of_mem_erase member)
    by_contra full
    -- otherwise the cache held all rows
    have all : ∀ row ∈ service.db.drvs.keys, row ∈ service.graph.nodes.keys := by
      intro row member
      by_cases same : row = drvId
      · exact same ▸ resident
      · by_contra absent
        exact full ⟨row, (List.mem_erase_of_ne same).mpr member, absent⟩
    have fits := (service.db.drvs.nodup.subperm all).length_le
    exact absurd (Nat.le_trans fits service.graph.nodes.bounded) (Nat.not_le.mpr tight)
  · have absent : service.Deep drvId (depth + 1) := fun member => resident (List.mem_of_mem_take member)
    exact absent.reloads now _ apart

theorem Deep.passes (deep : service.Deep drvId depth) (now : Instant)
    (tight : service.graph.nodes.cap < service.db.drvs.keys.length) (count : Nat) :
    ((List.replicate count (service.otherRows drvId)).flatten.foldl (GraphService.ensureLoaded now) service).Deep
      drvId (depth + count) := by
  induction count generalizing service depth with
  | zero => exact deep
  | succ count ih =>
    obtain ⟨db, cap⟩ := reloads_frame (service.otherRows drvId) service now
    have same : ((service.otherRows drvId).foldl (GraphService.ensureLoaded now) service).otherRows drvId =
        service.otherRows drvId := by
      rw [otherRows, db, otherRows]
    have next := ih (deep.pass now tight) (by rw [db, cap]; exact tight)
    rw [same, Nat.add_right_comm] at next
    rw [List.replicate_succ, List.flatten_cons, List.foldl_append]
    exact next

theorem mem_getDependents_of_insertNode {graph : BuildGraph DrvId} {drv : Drv DrvId} {source target : DrvId}
    (listed : target ∈ (graph.insertNode now drv).2.getDependents source) : target ∈ graph.getDependents source := by
  rw [BuildGraph.getDependents, BuildGraph.insertNode_getNode] at listed
  split at listed
  · cases listed
  · split at listed
    · cases listed
    · exact listed

omit [DecidableEq DrvId] in
theorem Grounded.of_kept {next : GraphService DrvId} (grounded : service.Grounded)
    (edges : ∀ drvId, next.graph.getDependents drvId = service.graph.getDependents drvId)
    (refs : next.db.refs = service.db.refs) : next.Grounded := by
  intro source target listed
  rw [edges] at listed
  rw [refs]
  exact grounded source target listed

theorem Grounded.ensureLoaded (grounded : service.Grounded) (now : Instant) (drvId : DrvId) :
    (GraphService.ensureLoaded now service drvId).Grounded := by
  cases resident : service.graph.nodes.contains drvId with
  | true =>
    rw [ensureLoaded_of_resident now resident]
    exact grounded
  | false =>
    cases stored : service.db.getDrv drvId with
    | none =>
      rw [ensureLoaded_of_unknown now stored]
      exact grounded
    | some drv =>
      intro source target listed
      rw [(ensureLoaded_frame service now drvId).1]
      rw [ensureLoaded_eq now resident stored, cacheNode_graph, foldl_insertRef_graph, insertDrv_graph,
        BuildGraph.addEdges_getDependents] at listed
      obtain old | ⟨-, row⟩ := listed
      · exact grounded source target (mem_getDependents_of_insertNode old)
      · exact (Database.mem_edgesOf.mp row).1

theorem Grounded.reloads (grounded : service.Grounded) (now : Instant) (seeds : List DrvId) :
    (seeds.foldl (GraphService.ensureLoaded now) service).Grounded :=
  List.foldlRecOn seeds _ (motive := Grounded) grounded fun _ held seed _ => held.ensureLoaded now seed

theorem mem_getDependents_of_extend {graph : BuildGraph DrvId} {drvs : List (Drv DrvId)}
    {refs : List (DrvId × DrvId)} {source target : DrvId}
    (listed : target ∈ (graph.extend now drvs refs).getDependents source) :
    target ∈ graph.getDependents source ∨ (target, source) ∈ refs := by
  rw [BuildGraph.extend, BuildGraph.addEdges_getDependents] at listed
  refine listed.imp (fun old => ?_) And.right
  have kept : ∀ graph : BuildGraph DrvId,
      target ∈ (drvs.foldl (fun graph drv => (graph.insertNode now drv).2) graph).getDependents source →
        target ∈ graph.getDependents source := by
    clear listed old
    induction drvs with
    | nil => exact fun _ listed => listed
    | cons drv rest ih => exact fun graph listed => mem_getDependents_of_insertNode (ih _ listed)
  exact kept graph old

theorem Grounded.maintain (grounded : service.Grounded) (now : Instant) : (service.maintain now).Grounded := by
  refine grounded.of_kept (fun drvId => ?_) (by rw [maintain_db])
  rw [BuildGraph.getDependents, maintain_getNode, BuildGraph.getDependents]

theorem Grounded.serve (grounded : service.Grounded) (request : Request DrvId) : (service.serve request).Grounded := by
  cases request with
  | submit now drvs refs =>
    refine Grounded.maintain (fun source target listed => ?_) now
    obtain ⟨graph, db⟩ := insertDrvs_graph
      { service with db := service.db.insertDrvsAndReferences drvs refs } now drvs refs
    obtain ⟨-, -, edges⟩ := Database.insertDrvsAndReferences_frame service.db drvs refs
    rw [handleCommand, graph] at listed
    rw [handleCommand, db, edges]
    exact (mem_getDependents_of_extend listed).imp_left (grounded source target)
  | update now drvId newState =>
    have updated : (service.updateState now drvId newState).Grounded :=
      grounded.of_kept (fun other => BuildGraph.updateState_topology.dependents other) rfl
    exact updated.maintain now
  | ask now query asks =>
    refine Grounded.maintain ?_ now
    cases query with
    | updateState | insertDrvs | propagateFailure | clearFailure => cases asks
    | _ => exact grounded.reloads now _

variable (db : Database DrvId) (capacity : Nat)

theorem new_grounded (positive : 0 < capacity) (start : Instant) : (new db capacity positive start).Grounded := by
  let loaded := BuildGraph.load capacity positive start (BuildGraph.normalDrvs db) db.refs
  have topology : BuildGraph.SameTopology (BuildGraph.fromDatabase db capacity positive start) loaded :=
    BuildGraph.foldl_propagateFailure_topology loaded.failedDrvs.keys loaded
  intro source target listed
  have edge : target ∈ loaded.getDependents source := topology.dependents source ▸ listed
  obtain old | row := mem_getDependents_of_extend edge
  · cases old
  · exact row

theorem evicted_by_others (service : GraphService DrvId) (now : Instant) (drvId : DrvId)
    (tight : service.graph.nodes.cap < service.db.drvs.keys.length) :
    drvId ∉ ((List.replicate service.graph.nodes.cap (service.otherRows drvId)).flatten.foldl
      (ensureLoaded now) service).graph.nodes.keys := by
  have fresh : service.Deep drvId 0 := List.not_mem_nil
  have deep := fresh.passes now tight service.graph.nodes.cap
  rw [Nat.zero_add] at deep
  let others := (List.replicate service.graph.nodes.cap (service.otherRows drvId)).flatten
  have bounded : (others.foldl (ensureLoaded now) service).graph.nodes.keys.length ≤ service.graph.nodes.cap := by
    rw [← (reloads_frame others service now).2]
    exact LruCache.bounded _
  rw [Deep, List.take_of_length_le bounded] at deep
  exact deep

theorem fits_of_bottom (transparent : service.Transparent) (grounded : service.Grounded)
    (known : drvId ∈ service.db.drvs.keys) (bottom : ∀ reference, (drvId, reference) ∉ service.db.refs) :
    service.db.drvs.keys.length ≤ service.graph.nodes.cap := by
  by_contra tight
  have tight := Nat.not_le.mp tight
  let loaded := ensureLoaded 0 service drvId
  obtain ⟨db, cap⟩ := ensureLoaded_frame service 0 drvId
  let others := (List.replicate loaded.graph.nodes.cap (loaded.otherRows drvId)).flatten
  have evicted := evicted_by_others loaded 0 drvId (by rw [db, cap]; exact tight)
  have answered := (transparent.reachable 0 (drvId :: others) drvId).mpr
    ⟨drvId, List.mem_cons_self, known, .refl⟩
  obtain ⟨seed, -, resident, path⟩ := BuildGraph.mem_reverseReachableFromSet.mp answered
  -- nothing leads to the drv, and it is gone itself
  cases path with
  | refl => exact evicted resident
  | tail _ edge =>
    have row := grounded.reloads 0 (drvId :: others) _ _ edge
    rw [(reloads_frame (drvId :: others) service 0).1] at row
    exact bottom _ row

theorem exists_bottom {db : Database DrvId} (closed : db.RefsClosed) (acyclic : db.Acyclic)
    (known : drvId ∈ db.drvs.keys) : ∃ bottom ∈ db.drvs.keys, ∀ reference, (bottom, reference) ∉ db.refs := by
  let below : {row // row ∈ db.drvs.keys} → {row // row ∈ db.drvs.keys} → Prop :=
    fun source target => Relation.TransGen db.Dependent source target
  have : IsTrans _ below := ⟨fun _ _ _ => Relation.TransGen.trans⟩
  have : Std.Irrefl below := ⟨fun row => acyclic row⟩
  have founded : WellFounded below := Finite.wellFounded_of_trans_of_irrefl below
  obtain ⟨bottom, -, least⟩ := founded.has_min Set.univ ⟨⟨drvId, known⟩, trivial⟩
  refine ⟨bottom, bottom.2, fun reference row => ?_⟩
  exact least ⟨reference, (closed _ row).2⟩ trivial (.single row)

theorem serveAll_grounded (positive : 0 < capacity) (start : Instant) (requests : List (Request DrvId)) :
    ((new db capacity positive start).serveAll requests).Grounded :=
  List.foldlRecOn requests _ (motive := Grounded) (new_grounded db capacity positive start)
    fun _ held request _ => held.serve request

theorem fits_of_transparent (transparent : service.Transparent) (grounded : service.Grounded)
    (closed : service.db.RefsClosed) (acyclic : service.db.Acyclic) :
    service.db.drvs.keys.length ≤ service.graph.nodes.cap := by
  by_contra tight
  obtain ⟨row, known⟩ := List.exists_mem_of_length_pos (Nat.zero_lt_of_lt (Nat.not_le.mp tight))
  obtain ⟨bottom, stored, leaf⟩ := exists_bottom closed acyclic known
  exact tight (fits_of_bottom transparent grounded stored leaf)

theorem extend_cap (graph : BuildGraph DrvId) (now : Instant) (drvs : List (Drv DrvId))
    (refs : List (DrvId × DrvId)) : (graph.extend now drvs refs).nodes.cap = graph.nodes.cap := by
  have inserted : (drvs.foldl (fun graph drv => (graph.insertNode now drv).2) graph).nodes.cap = graph.nodes.cap :=
    List.foldlRecOn drvs _ (motive := fun next : BuildGraph DrvId => next.nodes.cap = graph.nodes.cap) rfl
      fun next same drv _ => (BuildGraph.insertNode_length now drv next).2.trans same
  exact List.foldlRecOn refs _ (motive := fun next : BuildGraph DrvId => next.nodes.cap = graph.nodes.cap) inserted
    fun _ same _ _ => same

theorem new_cap (positive : 0 < capacity) (start : Instant) :
    (new db capacity positive start).graph.nodes.cap = capacity := by
  let loaded := BuildGraph.load capacity positive start (BuildGraph.normalDrvs db) db.refs
  refine List.foldlRecOn loaded.failedDrvs.keys _ (motive := fun next : BuildGraph DrvId => next.nodes.cap = capacity)
    (extend_cap ..) fun next same failed _ => ?_
  obtain ⟨-, cap, -⟩ := BuildGraph.propagateFailure_frame next failed
  exact cap.trans same

theorem serve_submit (service : GraphService DrvId) (now : Instant) (drvs : List (Drv DrvId))
    (refs : List (DrvId × DrvId)) :
    (service.serve (.submit now drvs refs)).graph.nodes = (service.graph.extend now drvs refs).nodes ∧
      (service.serve (.submit now drvs refs)).db = service.db.insertDrvsAndReferences drvs refs := by
  obtain ⟨graph, db⟩ := insertDrvs_graph
    { service with db := service.db.insertDrvsAndReferences drvs refs } now drvs refs
  rw [serve, process, handleCommand, maintain_nodes, maintain_db, graph, db]
  exact ⟨rfl, rfl⟩

theorem Complete.resent (complete : service.Complete) {drvs : List (Drv DrvId)} {refs : List (DrvId × DrvId)}
    (fits : (service.db.insertDrvsAndReferences drvs refs).drvs.keys.length ≤ service.graph.nodes.cap)
    (transparent : (service.serve (.submit now drvs refs)).Transparent) :
    ∀ drv ∈ drvs, ∀ edge ∈ service.db.refs, edge.1 = drv.drvPath ∨ edge.2 = drv.drvPath → edge ∈ refs := by
  obtain ⟨nodes, db⟩ := serve_submit service now drvs refs
  obtain ⟨-, -, edges⟩ := Database.insertDrvsAndReferences_frame service.db drvs refs
  obtain ⟨resident, lists⟩ := complete.inserted now fits
  have loaded : ∀ drv ∈ drvs, (service.serve (.submit now drvs refs)).graph.nodes.contains drv.drvPath = true := by
    intro drv member
    rw [nodes, LruCache.contains_iff]
    exact (resident _).mpr (List.mem_append_right _ (List.mem_map_of_mem member))
  rintro drv member ⟨referrer, reference⟩ row atEnd
  have again : drv.drvPath ∈ drvs.map (·.drvPath) := List.mem_map_of_mem member
  obtain rfl | rfl := atEnd
  · have answered := (transparent.dependencies 0 drv.drvPath reference).mpr (by rw [db, edges]; exact .inl row)
    rw [answerDependencies, ensureLoaded_of_resident 0 (loaded drv member), if_pos (loaded drv member),
      BuildGraph.getDependencies, BuildGraph.getNode, nodes] at answered
    obtain none | ⟨-, sent⟩ := (lists drv.drvPath reference).1.mp answered
    · rw [if_pos again] at none
      cases none
    · exact sent
  · have answered := (transparent.dependents 0 drv.drvPath referrer).mpr (by rw [db, edges]; exact .inl row)
    rw [answerDependents, ensureLoaded_of_resident 0 (loaded drv member), if_pos (loaded drv member),
      BuildGraph.getDependents, BuildGraph.getNode, nodes] at answered
    obtain none | ⟨-, sent⟩ := (lists referrer drv.drvPath).2.mp answered
    · rw [if_pos again] at none
      cases none
    · exact sent

theorem Complete.keeps (complete : service.Complete) (grounded : (service.serve request).Grounded)
    (transparent : (service.serve request).Transparent) (closed : (service.serve request).db.RefsClosed)
    (acyclic : (service.serve request).db.Acyclic) : service.KeepsComplete request := by
  cases request with
  | submit now drvs refs =>
    obtain ⟨nodes, db⟩ := serve_submit service now drvs refs
    have room := fits_of_transparent transparent grounded closed acyclic
    rw [nodes, extend_cap, db] at room
    rw [db] at closed
    exact ⟨room, closed, complete.resent room transparent⟩
  | update => trivial
  | ask => trivial

/-- Over references between rows and without cycles, the answers are right all
along a history exactly if the whole graph stays in the cache. -/
theorem serveAll_transparent_iff (positive : 0 < capacity) (start : Instant) (requests : List (Request DrvId))
    (sound : ∀ before after, requests = before ++ after →
      ((new db capacity positive start).serveAll before).db.RefsClosed ∧
        ((new db capacity positive start).serveAll before).db.Acyclic) :
    (∀ before after, requests = before ++ after → ((new db capacity positive start).serveAll before).Transparent) ↔
      db.drvs.keys.length ≤ capacity ∧ ∀ before request after, requests = before ++ request :: after →
        ((new db capacity positive start).serveAll before).KeepsComplete request := by
  obtain ⟨closed, acyclic⟩ := sound [] requests rfl
  constructor
  · intro transparent
    have room : db.drvs.keys.length ≤ capacity := by
      have room := fits_of_transparent (transparent [] requests rfl) (new_grounded db capacity positive start)
        closed acyclic
      rw [serveAll, List.foldl_nil, new_cap] at room
      exact room
    -- a complete cache stays so, since the next answers are right too
    have next : ∀ before request after, requests = before ++ request :: after →
        ((new db capacity positive start).serveAll before).Complete →
          ((new db capacity positive start).serveAll before).KeepsComplete request := by
      intro before request after split complete
      have longer : requests = (before ++ [request]) ++ after := by rw [split, List.append_assoc]; rfl
      have grounded := serveAll_grounded db capacity positive start (before ++ [request])
      have right := transparent _ _ longer
      have rows := sound _ _ longer
      rw [serveAll, List.foldl_append] at grounded right rows
      exact complete.keeps grounded right rows.1 rows.2
    have complete : ∀ before after, requests = before ++ after →
        ((new db capacity positive start).serveAll before).Complete := by
      intro before
      induction before using List.reverseRecOn with
      | nil => exact fun _ _ => new_complete positive start room closed
      | append_singleton before request ih =>
        intro after split
        have split : requests = before ++ request :: after := by rw [split, List.append_assoc]; rfl
        have now := ih _ split
        rw [serveAll, List.foldl_append]
        exact now.serve (next before request after split now)
    exact ⟨room, fun before request after split => next before request after split (complete before _ split)⟩
  · rintro ⟨room, keeps⟩ before after split
    exact (serveAll_complete positive start room closed keeps before after split).transparent

end GraphService

end EkaCI
