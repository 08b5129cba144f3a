import EkaCI.Nix.Traversal

/-! Stored closures: every drv with a row has its references and their rows, as long
as no query fails for a drv that is new. -/

namespace EkaCI

open Lib

variable {DrvId : Type} {store : NixStore DrvId} {db : Database DrvId} {answers : NixAnswers DrvId}

theorem Database.mem_keys_iff_getDrv {drvId : DrvId} : drvId ∈ db.drvs.keys ↔ ∃ drv, db.getDrv drvId = some drv := by
  rw [Table.mem_keys, Option.isSome_iff_exists]
  rfl

theorem mem_gather_drvs {drvIds : List DrvId} {drv : Drv DrvId} :
    drv ∈ (gather store db answers drvIds).drvs ↔ ∃ drvId ∈ drvIds, fetchInfo store db answers drvId = some drv := by
  simp only [gather, List.mem_flatMap, List.mem_filterMap]
  constructor
  · rintro ⟨chunk, member, drvId, inside, found⟩
    exact ⟨drvId, mem_of_mem_chunks member ((answers.infoOrder_perm chunk).mem_iff.mp inside), found⟩
  · rintro ⟨drvId, member, found⟩
    rw [← flatten_chunks 149 drvIds] at member
    obtain ⟨chunk, present, inside⟩ := List.mem_flatten.mp member
    exact ⟨chunk, present, drvId, (answers.infoOrder_perm chunk).mem_iff.mpr inside, found⟩

theorem mem_gather_refs {drvIds : List DrvId} {edge : DrvId × DrvId} :
    edge ∈ (gather store db answers drvIds).refs ↔
      edge.1 ∈ drvIds ∧ answers.refsFail edge.1 = false ∧ edge.2 ∈ store.references edge.1 := by
  have pairs : ∀ drvId, edge ∈ referencePairs store answers drvId ↔
      drvId = edge.1 ∧ answers.refsFail drvId = false ∧ edge.2 ∈ store.references drvId := by
    intro drvId
    unfold referencePairs
    split
    · simp_all
    · rename_i fails
      constructor
      · intro member
        obtain ⟨reference, present, rfl⟩ := List.mem_map.mp member
        exact ⟨rfl, by simpa using fails, present⟩
      · rintro ⟨rfl, -, present⟩
        exact List.mem_map.mpr ⟨edge.2, present, rfl⟩
  simp only [gather, List.mem_flatMap, pairs]
  constructor
  · rintro ⟨chunk, member, drvId, inside, rfl, answered, present⟩
    exact ⟨mem_of_mem_chunks member ((answers.refsOrder_perm chunk).mem_iff.mp inside), answered, present⟩
  · rintro ⟨member, answered, present⟩
    rw [← flatten_chunks 149 drvIds] at member
    obtain ⟨chunk, listed, inside⟩ := List.mem_flatten.mp member
    exact ⟨chunk, listed, edge.1, (answers.refsOrder_perm chunk).mem_iff.mpr inside, rfl, answered, present⟩

variable [DecidableEq DrvId]

namespace Database

theorem foldl_insertDrv_getDrv (db : Database DrvId) (drvs : List (Drv DrvId)) (drvId : DrvId) :
    (drvs.foldl insertDrv db).getDrv drvId = (db.getDrv drvId).or (drvs.find? (·.drvPath = drvId)) := by
  induction drvs generalizing db with
  | nil => simp
  | cons drv rest ih =>
    rw [List.foldl_cons, ih, insertDrv_getDrv]
    by_cases same : drvId = drv.drvPath
    · subst same
      cases db.getDrv drv.drvPath <;> simp
    · rw [if_neg same, List.find?_cons_of_neg (by simpa using Ne.symm same)]

theorem foldl_insertDrv_refs (db : Database DrvId) (drvs : List (Drv DrvId)) :
    (drvs.foldl insertDrv db).refs = db.refs := by
  induction drvs generalizing db with
  | nil => rfl
  | cons drv rest ih => rw [List.foldl_cons, ih, insertDrv_refs]

theorem insertRefsChunks_of_known (parts : List (List (DrvId × DrvId)))
    (known : ∀ edge ∈ parts.flatten, edge.1 ∈ db.drvs.keys ∧ edge.2 ∈ db.drvs.keys) :
    (db.insertRefsChunks parts).2 = true ∧ (db.insertRefsChunks parts).1.drvs = db.drvs ∧
      ∀ edge, edge ∈ (db.insertRefsChunks parts).1.refs ↔ edge ∈ db.refs ∨ edge ∈ parts.flatten := by
  induction parts generalizing db with
  | nil => exact ⟨rfl, rfl, by simp [insertRefsChunks]⟩
  | cons chunk rest ih =>
    rw [List.flatten_cons] at known
    have here : (chunk.all fun edge => edge.1 ∈ db.drvs.keys ∧ edge.2 ∈ db.drvs.keys) = true :=
      List.all_eq_true.mpr fun edge member => decide_eq_true (known edge (List.mem_append_left _ member))
    obtain ⟨stored, rows, edges⟩ := @ih (db.insertDrvsAndReferences [] chunk)
      fun edge member => known edge (List.mem_append_right _ member)
    rw [insertRefsChunks, insertRefsChunk, if_pos here]
    refine ⟨stored, rows, fun edge => ?_⟩
    rw [List.flatten_cons, List.mem_append, ← or_assoc, ← (insertDrvsAndReferences_frame db [] chunk).2.2 edge]
    exact edges edge

theorem tryInsertDrvsAndReferences_eq (db : Database DrvId) (batch : DrvBatch DrvId) :
    db.tryInsertDrvsAndReferences batch =
      (batch.drvs.foldl insertDrv db).insertRefsChunks (chunks 16379 batch.refs) := by
  unfold tryInsertDrvsAndReferences
  rw [← List.foldl_flatten, flatten_chunks]

end Database

theorem filterNew_spec (drvMap : LruCache DrvId (Drv DrvId)) (drvIds : List DrvId) :
    (∀ drvId, drvId ∈ (filterNew drvMap drvIds).1 ↔ drvId ∈ drvIds ∧ drvMap.peek drvId = none) ∧
      ∀ drvId, (filterNew drvMap drvIds).2.peek drvId = drvMap.peek drvId := by
  induction drvIds generalizing drvMap with
  | nil => simp [filterNew]
  | cons head rest ih =>
    obtain ⟨members, peeks⟩ := ih (drvMap.get head).2
    simp only [LruCache.get_peek] at members peeks
    refine ⟨fun drvId => ?_, peeks⟩
    simp only [filterNew, LruCache.get_fst]
    cases cached : drvMap.peek head with
    | none =>
      simp only [Option.isNone_none, if_true, List.mem_cons, members]
      constructor
      · rintro (rfl | ⟨present, absent⟩)
        · exact ⟨.inl rfl, cached⟩
        · exact ⟨.inr present, absent⟩
      · rintro ⟨rfl | present, absent⟩
        · exact .inl rfl
        · exact .inr ⟨present, absent⟩
    | some drv =>
      simp only [Option.isNone_some, Bool.false_eq_true, if_false, List.mem_cons, members]
      constructor
      · exact fun ⟨present, absent⟩ => ⟨.inr present, absent⟩
      · rintro ⟨rfl | present, absent⟩
        · rw [cached] at absent
          cases absent
        · exact ⟨present, absent⟩

theorem putAll_peek {drvMap : LruCache DrvId (Drv DrvId)} {drvs : List (Drv DrvId)} {drvId : DrvId} {drv : Drv DrvId}
    (found : (putAll drvMap drvs).peek drvId = some drv) :
    (∃ other, drvMap.peek drvId = some other) ∨ drvId ∈ drvs.map (·.drvPath) := by
  induction drvs generalizing drvMap with
  | nil => exact .inl ⟨drv, found⟩
  | cons head rest ih =>
    rcases ih found with ⟨other, present⟩ | later
    · rw [LruCache.push_peek] at present
      split at present
      · rename_i same
        exact .inr (List.mem_cons.mpr (.inl same))
      · split at present
        · cases present
        · exact .inl ⟨other, present⟩
    · exact .inr (List.mem_cons_of_mem _ later)

/-- A batch that completes what is stored: true references between known drvs, and
all references of a new drv. -/
structure Gathered (store : NixStore DrvId) (db : Database DrvId) (batch : DrvBatch DrvId) : Prop where
  infos : ∀ drv ∈ batch.drvs, drv = store.info drv.drvPath
  real : ∀ edge ∈ batch.refs, edge.2 ∈ store.references edge.1
  known : ∀ edge ∈ batch.refs, ∀ drvId, drvId = edge.1 ∨ drvId = edge.2 →
    drvId ∈ db.drvs.keys ∨ drvId ∈ batch.drvs.map (·.drvPath)
  full : ∀ drv ∈ batch.drvs, drv.drvPath ∉ db.drvs.keys → ∀ reference ∈ store.references drv.drvPath,
    (drv.drvPath, reference) ∈ batch.refs

namespace Gathered

omit [DecidableEq DrvId]

theorem empty : Gathered store db {} where
  infos := fun _ member => nomatch member
  real := fun _ member => nomatch member
  known := fun _ member => nomatch member
  full := fun _ member => nomatch member

theorem append {first second : DrvBatch DrvId} (left : Gathered store db first) (right : Gathered store db second) :
    Gathered store db (first.append second) where
  infos drv member := (List.mem_append.mp member).elim (left.infos drv) (right.infos drv)
  real edge member := (List.mem_append.mp member).elim (left.real edge) (right.real edge)
  known edge member drvId side := by
    rw [DrvBatch.append, List.map_append, List.mem_append]
    rcases List.mem_append.mp member with own | other
    · exact (left.known edge own drvId side).imp_right .inl
    · exact (right.known edge other drvId side).imp_right .inr
  full drv member new reference present := by
    rcases List.mem_append.mp member with own | other
    · exact List.mem_append_left _ (left.full drv own new reference present)
    · exact List.mem_append_right _ (right.full drv other new reference present)

end Gathered

/-- The queries for a drv end well: its references are found if it has any, and its
information is found if it takes part in a reference at all. -/
structure Answered (store : NixStore DrvId) (answers : NixAnswers DrvId) (drvId : DrvId) : Prop where
  refs : answers.refsFail drvId = true → store.references drvId = []
  info : answers.infoFails drvId = true → store.references drvId = [] ∧ ∀ referrer, drvId ∉ store.references referrer

section Fetch

omit [DecidableEq DrvId]

theorem fetchInfo_eq_info (rows : ∀ drvId drv, db.getDrv drvId = some drv → drv = store.info drvId) {drvId : DrvId}
    {drv : Drv DrvId} (found : fetchInfo store db answers drvId = some drv) : drv = store.info drvId := by
  unfold fetchInfo at found
  split at found
  · rename_i row held
    cases found
    exact rows drvId drv held
  · split at found
    · cases found
    · cases found
      rfl

theorem fetchInfo_of_new {drvId : DrvId} (new : drvId ∉ db.drvs.keys) (answered : answers.infoFails drvId = false) :
    fetchInfo store db answers drvId = some (store.info drvId) := by
  have absent : db.getDrv drvId = none := by
    by_contra present
    exact new (Database.mem_keys_iff_getDrv.mpr (Option.ne_none_iff_exists'.mp present))
  rw [fetchInfo, absent]
  simp [answered]

theorem gathered_gather (rows : ∀ drvId drv, db.getDrv drvId = some drv → drv = store.info drvId) {drvIds : List DrvId}
    (closed : ∀ drvId ∈ drvIds, ∀ reference ∈ store.references drvId, reference ∈ db.drvs.keys ∨ reference ∈ drvIds)
    (answered : ∀ drvId ∈ drvIds, drvId ∉ db.drvs.keys → Answered store answers drvId) :
    Gathered store db (gather store db answers drvIds) := by
  -- A new drv that takes part in a reference is among the fetched drvs.
  have fetched : ∀ drvId ∈ drvIds, (∃ referrer, drvId ∈ store.references referrer) ∨ store.references drvId ≠ [] →
      drvId ∈ db.drvs.keys ∨ drvId ∈ (gather store db answers drvIds).drvs.map (·.drvPath) := by
    intro drvId member used
    by_cases stored : drvId ∈ db.drvs.keys
    · exact .inl stored
    · refine .inr (List.mem_map.mpr ⟨store.info drvId, mem_gather_drvs.mpr ⟨drvId, member, ?_⟩, store.info_path drvId⟩)
      apply fetchInfo_of_new stored
      by_contra fails
      obtain ⟨leaf, unused⟩ := (answered drvId member stored).info (by simpa using fails)
      rcases used with ⟨referrer, present⟩ | refers
      · exact unused referrer present
      · exact refers leaf
  constructor
  · intro drv member
    obtain ⟨drvId, -, found⟩ := mem_gather_drvs.mp member
    rw [fetchInfo_eq_info rows found, store.info_path]
  · intro edge member
    exact (mem_gather_refs.mp member).2.2
  · intro edge member drvId side
    obtain ⟨listed, -, present⟩ := mem_gather_refs.mp member
    rcases side with rfl | rfl
    · exact fetched _ listed (.inr (List.ne_nil_of_mem present))
    · rcases closed _ listed _ present with stored | asked
      · exact .inl stored
      · exact fetched _ asked (.inl ⟨_, present⟩)
  · intro drv member new reference present
    obtain ⟨drvId, listed, found⟩ := mem_gather_drvs.mp member
    have path : drv.drvPath = drvId := by rw [fetchInfo_eq_info rows found, store.info_path]
    rw [path] at new present ⊢
    refine mem_gather_refs.mpr ⟨listed, ?_, present⟩
    by_contra fails
    rw [(answered drvId listed new).refs (by simpa using fails)] at present
    cases present

end Fetch

namespace EvalService

variable {service : EvalService DrvId} {batch : DrvBatch DrvId} {drvMap : LruCache DrvId (Drv DrvId)}

/-- Every drv with a row has exactly its references, each with a row, and the graph
was told of the same rows and references. -/
structure ClosuresStored (store : NixStore DrvId) (service : EvalService DrvId) : Prop where
  edges : ∀ drvId ∈ service.db.drvs.keys, ∀ reference,
    (drvId, reference) ∈ service.db.refs ↔ reference ∈ store.references drvId
  closed : ∀ drvId ∈ service.db.drvs.keys, ∀ reference ∈ store.references drvId, reference ∈ service.db.drvs.keys
  sentDrvs : ∀ drv, (∃ batch ∈ service.sent, drv ∈ batch.drvs) ↔ service.db.getDrv drv.drvPath = some drv
  sentRefs : ∀ edge, (∃ batch ∈ service.sent, edge ∈ batch.refs) ↔ edge ∈ service.db.refs

/-- Only stored drvs are cached. -/
def Cached (db : Database DrvId) (drvMap : LruCache DrvId (Drv DrvId)) : Prop :=
  ∀ drvId drv, drvMap.peek drvId = some drv → drvId ∈ db.drvs.keys

structure Complete (store : NixStore DrvId) (service : EvalService DrvId) : Prop extends ClosuresStored store service where
  rows : ∀ drvId drv, service.db.getDrv drvId = some drv → drv = store.info drvId
  sources : ∀ edge ∈ service.db.refs, edge.1 ∈ service.db.drvs.keys
  cached : Cached service.db service.drvMap

omit [DecidableEq DrvId] in
theorem complete_init : Complete store init where
  edges := fun _ member => nomatch member
  closed := fun _ member => nomatch member
  sentDrvs drv := by simp [init, Database.empty, Database.getDrv, Table.empty]
  sentRefs edge := by simp [init, Database.empty]
  rows := fun _ _ found => nomatch found
  sources := fun _ member => nomatch member
  cached := fun _ _ found => nomatch found

omit [DecidableEq DrvId] in
theorem Complete.setDrvMap (complete : Complete store service) (cached : Cached service.db drvMap) :
    Complete store { service with drvMap := drvMap } :=
  ⟨⟨complete.edges, complete.closed, complete.sentDrvs, complete.sentRefs⟩, complete.rows, complete.sources, cached⟩

structure HoldsBatch (db : Database DrvId) (batch : DrvBatch DrvId) (after : Database DrvId) : Prop where
  get : ∀ drvId, after.getDrv drvId = (db.getDrv drvId).or (batch.drvs.find? (·.drvPath = drvId))
  refs : ∀ edge, edge ∈ after.refs ↔ edge ∈ db.refs ∨ edge ∈ batch.refs

namespace HoldsBatch

variable {after : Database DrvId}

theorem keys (holds : HoldsBatch db batch after) (drvId : DrvId) :
    drvId ∈ after.drvs.keys ↔ drvId ∈ db.drvs.keys ∨ drvId ∈ batch.drvs.map (·.drvPath) := by
  rw [Database.mem_keys_iff_getDrv, ← Option.isSome_iff_exists, holds.get, Option.isSome_or, Bool.or_eq_true,
    Option.isSome_iff_exists, ← Database.mem_keys_iff_getDrv, List.find?_isSome]
  simp

theorem rows (holds : HoldsBatch service.db batch after) (complete : Complete store service)
    (gathered : Gathered store service.db batch) {drvId : DrvId} {drv : Drv DrvId} (found : after.getDrv drvId = some drv) :
    drv = store.info drvId := by
  rw [holds.get, Option.or_eq_some_iff] at found
  rcases found with old | ⟨-, new⟩
  · exact complete.rows drvId drv old
  · have path : drv.drvPath = drvId := by simpa using List.find?_some new
    rw [← path]
    exact gathered.infos drv (List.mem_of_find?_eq_some new)

theorem edges (holds : HoldsBatch service.db batch after) (complete : Complete store service)
    (gathered : Gathered store service.db batch) {drvId : DrvId} (member : drvId ∈ after.drvs.keys) (reference : DrvId) :
    (drvId, reference) ∈ after.refs ↔ reference ∈ store.references drvId := by
  rw [holds.keys] at member
  rw [holds.refs]
  by_cases old : drvId ∈ service.db.drvs.keys
  · rw [complete.edges drvId old]
    exact ⟨fun either => either.elim id (gathered.real _), .inl⟩
  · constructor
    · rintro (stale | new)
      · exact absurd (complete.sources _ stale) old
      · exact gathered.real _ new
    · intro present
      obtain ⟨drv, listed, rfl⟩ := List.mem_map.mp (member.resolve_left old)
      exact .inr (gathered.full drv listed old reference present)

theorem closed (holds : HoldsBatch service.db batch after) (complete : Complete store service)
    (gathered : Gathered store service.db batch) {drvId reference : DrvId} (member : drvId ∈ after.drvs.keys)
    (present : reference ∈ store.references drvId) : reference ∈ after.drvs.keys := by
  rw [holds.keys] at member ⊢
  by_cases old : drvId ∈ service.db.drvs.keys
  · exact .inl (complete.closed drvId old reference present)
  · obtain ⟨drv, listed, rfl⟩ := List.mem_map.mp (member.resolve_left old)
    exact gathered.known _ (gathered.full drv listed old reference present) reference (.inr rfl)

theorem sentDrvs (holds : HoldsBatch service.db batch after) (complete : Complete store service)
    (gathered : Gathered store service.db batch) (drv : Drv DrvId) :
    (∃ told ∈ service.sent ++ [batch], drv ∈ told.drvs) ↔ after.getDrv drv.drvPath = some drv := by
  constructor
  · rintro ⟨told, member, listed⟩
    have sent : (∃ told ∈ service.sent, drv ∈ told.drvs) ∨ drv ∈ batch.drvs := by
      rcases mem_snoc.mp member with earlier | last
      · exact .inl ⟨told, earlier, listed⟩
      · exact .inr (last ▸ listed)
    rw [complete.sentDrvs] at sent
    have info : drv = store.info drv.drvPath := sent.elim (complete.rows _ _) (gathered.infos drv)
    have present : drv.drvPath ∈ after.drvs.keys := by
      rw [holds.keys]
      exact sent.imp (fun old => Database.mem_keys_iff_getDrv.mpr ⟨drv, old⟩) List.mem_map_of_mem
    obtain ⟨row, found⟩ := Database.mem_keys_iff_getDrv.mp present
    rw [found, holds.rows complete gathered found, ← info]
  · intro found
    rw [holds.get, Option.or_eq_some_iff] at found
    rcases found with old | ⟨-, new⟩
    · obtain ⟨told, member, listed⟩ := (complete.sentDrvs drv).mpr old
      exact ⟨told, List.mem_append_left _ member, listed⟩
    · exact ⟨batch, List.mem_append_right _ (List.mem_singleton.mpr rfl), List.mem_of_find?_eq_some new⟩

theorem sentRefs (holds : HoldsBatch service.db batch after) (complete : Complete store service) (edge : DrvId × DrvId) :
    (∃ told ∈ service.sent ++ [batch], edge ∈ told.refs) ↔ edge ∈ after.refs := by
  rw [holds.refs, ← complete.sentRefs edge]
  constructor
  · rintro ⟨told, member, listed⟩
    rcases mem_snoc.mp member with earlier | last
    · exact .inl ⟨told, earlier, listed⟩
    · exact .inr (last ▸ listed)
  · rintro (⟨told, member, listed⟩ | new)
    · exact ⟨told, List.mem_append_left _ member, listed⟩
    · exact ⟨batch, List.mem_append_right _ (List.mem_singleton.mpr rfl), new⟩

end HoldsBatch

theorem holdsBatch_of_gathered (gathered : Gathered store service.db batch) : ∃ after, HoldsBatch service.db batch after ∧
    service.insertBatch batch =
      { db := after, drvMap := putAll service.drvMap batch.drvs, sent := service.sent ++ [batch] } := by
  have inserted : HoldsBatch service.db { batch with refs := [] } (batch.drvs.foldl Database.insertDrv service.db) := by
    refine ⟨Database.foldl_insertDrv_getDrv service.db batch.drvs, fun edge => ?_⟩
    rw [Database.foldl_insertDrv_refs]
    simp
  have known : ∀ edge ∈ (chunks 16379 batch.refs).flatten,
      edge.1 ∈ (batch.drvs.foldl Database.insertDrv service.db).drvs.keys ∧
        edge.2 ∈ (batch.drvs.foldl Database.insertDrv service.db).drvs.keys := by
    rw [flatten_chunks]
    intro edge member
    rw [inserted.keys, inserted.keys]
    exact ⟨gathered.known edge member _ (.inl rfl), gathered.known edge member _ (.inr rfl)⟩
  obtain ⟨stored, same, edges⟩ := Database.insertRefsChunks_of_known _ known
  rw [flatten_chunks, Database.foldl_insertDrv_refs] at edges
  refine ⟨_, ⟨fun drvId => ?_, edges⟩, ?_⟩
  · rw [Database.getDrv, same]
    exact inserted.get drvId
  · rw [EvalService.insertBatch, Database.tryInsertDrvsAndReferences_eq, if_pos stored]

theorem Complete.insertBatch (complete : Complete store service) (gathered : Gathered store service.db batch) :
    Complete store (service.insertBatch batch) := by
  obtain ⟨after, holds, inserted⟩ := holdsBatch_of_gathered gathered
  rw [inserted]
  refine ⟨⟨fun _ => holds.edges complete gathered, fun _ member _ => holds.closed complete gathered member,
    holds.sentDrvs complete gathered, holds.sentRefs complete⟩, fun _ _ => holds.rows complete gathered, ?_, ?_⟩
  · intro edge member
    rw [holds.keys]
    rcases (holds.refs edge).mp member with old | new
    · exact .inl (complete.sources edge old)
    · exact gathered.known edge new _ (.inl rfl)
  · intro drvId drv found
    rw [holds.keys]
    rcases putAll_peek found with ⟨other, cached⟩ | new
    · exact .inl (complete.cached drvId other cached)
    · exact .inr new

theorem alreadyVisitedDrv_cached (cached : Cached db drvMap) (root : DrvId) :
    Cached db (alreadyVisitedDrv db drvMap root).2 := by
  intro drvId drv found
  simp only [alreadyVisitedDrv] at found
  split at found
  · rw [LruCache.get_peek] at found
    exact cached drvId drv found
  · split at found
    · rename_i row held
      rw [LruCache.push_peek] at found
      split at found
      · rename_i same
        exact same ▸ Database.mem_keys_iff_getDrv.mpr ⟨row, held⟩
      · split at found
        · cases found
        · rw [LruCache.get_peek] at found
          exact cached drvId drv found
    · rw [LruCache.get_peek] at found
      exact cached drvId drv found

theorem filterNew_cached (cached : Cached db drvMap) (drvIds : List DrvId) : Cached db (filterNew drvMap drvIds).2 := by
  intro drvId drv found
  rw [(filterNew_spec drvMap drvIds).2] at found
  exact cached drvId drv found

theorem filterNew_closed (cached : Cached db drvMap) {root drvId reference : DrvId}
    (member : drvId ∈ (filterNew drvMap (store.requisites root)).1) (present : reference ∈ store.references drvId) :
    reference ∈ db.drvs.keys ∨ reference ∈ (filterNew drvMap (store.requisites root)).1 := by
  have members := (filterNew_spec drvMap (store.requisites root)).1
  have needed : reference ∈ store.requisites root :=
    store.mem_requisites.mpr (.tail (store.mem_requisites.mp ((members drvId).mp member).1) present)
  cases found : drvMap.peek reference with
  | none => exact .inr ((members reference).mpr ⟨needed, found⟩)
  | some drv => exact .inl (cached reference drv found)

/-- No query fails for a drv that has no row yet and takes part in a reference.
Where `deep_traverse` ends early it stores nothing. -/
def Heeds (store : NixStore DrvId) (service : EvalService DrvId) : TraversalCall DrvId → Prop
  | .batch jobs => ∀ job ∈ jobs, ∀ root, job.1 = some root → job.2.requisitesFail = false →
      ∀ drvId ∈ store.requisites root, drvId ∉ service.db.drvs.keys → Answered store job.2 drvId
  | .deep root answers => answers.requisitesFail = false →
      (∀ drvId ∈ store.requisites root, drvId ∉ service.db.drvs.keys → answers.infoFails drvId = false) →
      ∀ drvId ∈ store.requisites root, drvId ∉ service.db.drvs.keys → answers.refsFail drvId = true →
        store.references drvId = []

theorem visitJob_gathered (complete : Complete store service) (cached : Cached service.db drvMap)
    {job : Option DrvId × NixAnswers DrvId}
    (answered : ∀ root, job.1 = some root → job.2.requisitesFail = false →
      ∀ drvId ∈ store.requisites root, drvId ∉ service.db.drvs.keys → Answered store job.2 drvId) :
    Gathered store service.db (visitJob store service.db drvMap job).1 ∧
      Cached service.db (visitJob store service.db drvMap job).2 := by
  obtain ⟨path, answers⟩ := job
  cases path with
  | none => exact ⟨.empty, cached⟩
  | some root =>
    have looked := alreadyVisitedDrv_cached cached root
    simp only [visitJob]
    split
    · exact ⟨.empty, looked⟩
    · rename_i goes
      rw [not_or, Bool.not_eq_true, Bool.not_eq_true] at goes
      refine ⟨gathered_gather complete.rows ?_ ?_, filterNew_cached looked _⟩
      · exact fun drvId member reference present => filterNew_closed looked member present
      · intro drvId member
        exact answered root rfl goes.2 drvId (((filterNew_spec _ _).1 drvId).mp member).1

theorem visitJobs_gathered (complete : Complete store service) {jobs : List (Option DrvId × NixAnswers DrvId)}
    (heeds : service.Heeds store (.batch jobs)) (cached : Cached service.db drvMap) :
    Gathered store service.db (visitJobs store service.db jobs drvMap).1 ∧
      Cached service.db (visitJobs store service.db jobs drvMap).2 := by
  induction jobs generalizing drvMap with
  | nil => exact ⟨.empty, cached⟩
  | cons job rest ih =>
    obtain ⟨own, looked⟩ := visitJob_gathered complete cached (heeds job List.mem_cons_self)
    obtain ⟨others, final⟩ := ih (fun job member => heeds job (List.mem_cons_of_mem _ member)) looked
    exact ⟨own.append others, final⟩

theorem Complete.batchTraverse (complete : Complete store service) {jobs : List (Option DrvId × NixAnswers DrvId)}
    (heeds : service.Heeds store (.batch jobs)) : Complete store (service.batchTraverse store jobs) := by
  obtain ⟨gathered, cached⟩ := visitJobs_gathered complete heeds complete.cached
  have looked := complete.setDrvMap cached
  simp only [EvalService.batchTraverse]
  split
  · exact looked
  · exact looked.insertBatch gathered

theorem Complete.deepTraverse (complete : Complete store service) {root : DrvId}
    (heeds : service.Heeds store (.deep root answers)) : Complete store (service.deepTraverse store root answers) := by
  have members := (filterNew_spec service.drvMap (store.requisites root)).1
  have looked := complete.setDrvMap (filterNew_cached complete.cached (store.requisites root))
  simp only [EvalService.deepTraverse]
  split
  · exact complete
  · rename_i goes
    rw [Bool.not_eq_true] at goes
    split
    · exact looked
    · rename_i fetched
      -- Every new requisite is asked about, since only stored drvs are cached.
      have infos : ∀ drvId ∈ store.requisites root, drvId ∉ service.db.drvs.keys → answers.infoFails drvId = false := by
        intro drvId member new
        by_contra fails
        rw [Bool.not_eq_false] at fails
        refine fetched (List.any_eq_true.mpr ⟨drvId, (members drvId).mpr ⟨member, ?_⟩, ?_⟩)
        · by_contra present
          obtain ⟨drv, found⟩ := Option.ne_none_iff_exists'.mp present
          exact new (complete.cached drvId drv found)
        · have absent : service.db.getDrv drvId = none := by
            by_contra present
            exact new (Database.mem_keys_iff_getDrv.mpr (Option.ne_none_iff_exists'.mp present))
          simp [fetchInfo, absent, fails]
      refine looked.insertBatch (gathered_gather complete.rows ?_ ?_)
      · exact fun drvId member reference present => filterNew_closed complete.cached member present
      · intro drvId member new
        have needed := ((members drvId).mp member).1
        refine ⟨heeds goes infos drvId needed new, fun fails => ?_⟩
        rw [infos drvId needed new] at fails
        cases fails

/-- Stored closures are complete in every state of a run in which the queries for new
drvs succeed. -/
theorem run_closuresStored (store : NixStore DrvId) {calls : List (TraversalCall DrvId)} {final : EvalService DrvId}
    (run : Run (step store) (Heeds store) init calls final) : ClosuresStored store final := by
  apply Complete.toClosuresStored
  apply run.invariant (p := Complete store) complete_init
  intro service call next complete heeds taken
  cases call with
  | batch jobs =>
    cases taken
    exact complete.batchTraverse heeds
  | deep root answers =>
    cases taken
    exact complete.deepTraverse heeds

/-- Drv 1 needs drv 0. -/
def twoDrvs : NixStore Nat where
  references drvId := if drvId = 1 then [0] else []
  requisites root := if root = 1 then [0, 1] else [root]
  mem_requisites {root drvId} := by
    constructor
    · intro member
      split at member
      · rename_i same
        subst same
        rcases List.mem_cons.mp member with rfl | last
        · exact .single (by simp)
        · rw [List.mem_singleton.mp last]
      · rw [List.mem_singleton.mp member]
    · intro path
      induction path with
      | refl => split <;> simp_all
      | tail _ reference ih => split at reference <;> split at ih <;> simp_all
  info drvId := .plain drvId .queued
  info_path _ := rfl

/-- The queries for a root, where those for the references of some drvs fail. -/
def answering (refsFail : Nat → Bool) : NixAnswers Nat where
  requisitesFail := false
  infoFails _ := false
  refsFail := refsFail
  infoOrder chunk := chunk
  infoOrder_perm _ := .refl _
  refsOrder chunk := chunk
  refsOrder_perm _ := .refl _

theorem answering_closuresStored : ∃ final : EvalService Nat,
    Run (step twoDrvs) (Heeds twoDrvs) init
      [.batch [(some 1, answering fun _ => false)], .deep 1 (answering fun _ => false)] final ∧
      1 ∈ final.db.drvs.keys ∧ ClosuresStored twoDrvs final := by
  have batch : init.Heeds twoDrvs (.batch [(some 1, answering fun _ => false)]) := by
    intro job member root _ _ drvId _ _
    rw [List.mem_singleton.mp member]
    exact ⟨(fun fails => nomatch fails), fun fails => nomatch fails⟩
  have deep : (init.batchTraverse twoDrvs [(some 1, answering fun _ => false)]).Heeds twoDrvs
      (.deep 1 (answering fun _ => false)) :=
    fun _ _ _ _ _ fails => nomatch fails
  have run : Run (step twoDrvs) (Heeds twoDrvs) init
      [.batch [(some 1, answering fun _ => false)], .deep 1 (answering fun _ => false)] _ :=
    .cons batch rfl (.cons deep rfl .start)
  exact ⟨_, run, by decide, run_closuresStored twoDrvs run⟩

/-- The query for the references of drv 1 fails: its row stays without them. -/
theorem answering_not_closuresStored : ¬ ∀ (store : NixStore Nat) (calls : List (TraversalCall Nat))
    (final : EvalService Nat), AnyRun (step store) init calls final → ClosuresStored store final := by
  intro always
  have run : AnyRun (step twoDrvs) init [.batch [(some 1, answering fun drvId => drvId = 1)]] _ := run_of_exec rfl
  have edge := ((always twoDrvs _ _ run).edges 1 (by decide) 0).mpr (by decide)
  exact absurd edge (by decide)

end EvalService

end EkaCI
