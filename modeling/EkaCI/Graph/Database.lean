import EkaCI.Build.State
import EkaCI.Lib.Table

/-! The tables of the database that the graph service and the recorder share:
`Drv`, `DrvRefs` and `TransitiveFailure`. -/

namespace EkaCI

open Lib

variable {DrvId : Type}

structure Database (DrvId : Type) where
  /-- One row for each drv, under its path. -/
  drvs : Table DrvId (Drv DrvId)
  keyed : ∀ drvId drv, drvs.get drvId = some drv → drv.drvPath = drvId
  /-- Rows `(referrer, reference)`. -/
  refs : List (DrvId × DrvId)
  /-- Rows `(failed_drv, drv_referrer)`. -/
  transitiveFailures : List (DrvId × DrvId)

namespace Database

def empty : Database DrvId where
  drvs := .empty
  keyed := fun _ _ found => (by cases found)
  refs := []
  transitiveFailures := []

def getDrv (db : Database DrvId) (drvId : DrvId) : Option (Drv DrvId) := db.drvs.get drvId

def rowState (db : Database DrvId) (drvId : DrvId) : Option DrvBuildState :=
  (db.getDrv drvId).map (·.buildState)

/-- References are between drvs that have rows, as the foreign keys of the table demand. -/
def RefsClosed (db : Database DrvId) : Prop :=
  ∀ edge ∈ db.refs, edge.1 ∈ db.drvs.keys ∧ edge.2 ∈ db.drvs.keys

instance [DecidableEq DrvId] (db : Database DrvId) : Decidable db.RefsClosed :=
  inferInstanceAs (Decidable (∀ edge ∈ db.refs, _))

/-- The oldest row comes first; the newest one is the first of its table. -/
def getAllDrvs (db : Database DrvId) : List (Drv DrvId) := db.drvs.values.reverse

def getAllRefs (db : Database DrvId) : List (DrvId × DrvId) := db.refs

variable {db : Database DrvId} {drvId : DrvId}

theorem mem_getAllDrvs {drv : Drv DrvId} : drv ∈ db.getAllDrvs ↔ db.getDrv drv.drvPath = some drv := by
  simp only [getAllDrvs, List.mem_reverse, Table.values, List.mem_filterMap, getDrv]
  constructor
  · intro ⟨drvId, _, found⟩
    rw [db.keyed drvId drv found]
    exact found
  · intro found
    exact ⟨drv.drvPath, Table.mem_keys_of_get found, found⟩

theorem getAllDrvs_paths (db : Database DrvId) : db.getAllDrvs.map (·.drvPath) = db.drvs.keys.reverse := by
  rw [getAllDrvs, List.map_reverse, Table.values, List.map_filterMap]
  have named : ∀ drvId ∈ db.drvs.keys, (db.drvs.get drvId).map (·.drvPath) = some drvId := by
    intro drvId member
    obtain ⟨drv, found⟩ := Table.get_of_mem_keys member
    rw [found, Option.map_some, db.keyed drvId drv found]
  rw [List.filterMap_congr named, List.filterMap_some]

variable [DecidableEq DrvId]

def getDrvRefs (db : Database DrvId) (drvId : DrvId) : List DrvId :=
  (db.refs.filter (·.1 = drvId)).map (·.2)

def getDrvDependents (db : Database DrvId) (drvId : DrvId) : List DrvId :=
  (db.refs.filter (·.2 = drvId)).map (·.1)

/-- The edges of a drv, as pairs of referrer and reference. -/
def edgesOf (db : Database DrvId) (drvId : DrvId) : List (DrvId × DrvId) :=
  (db.getDrvRefs drvId).map (drvId, ·) ++ (db.getDrvDependents drvId).map (·, drvId)

theorem mem_getDrvRefs {reference : DrvId} : reference ∈ db.getDrvRefs drvId ↔ (drvId, reference) ∈ db.refs := by
  simp [getDrvRefs]

theorem mem_getDrvDependents {dependent : DrvId} :
    dependent ∈ db.getDrvDependents drvId ↔ (dependent, drvId) ∈ db.refs := by
  simp [getDrvDependents]

theorem mem_edgesOf {edge : DrvId × DrvId} :
    edge ∈ db.edgesOf drvId ↔ edge ∈ db.refs ∧ (edge.1 = drvId ∨ edge.2 = drvId) := by
  simp only [edgesOf, List.mem_append, List.mem_map, mem_getDrvRefs, mem_getDrvDependents]
  constructor
  · rintro (⟨reference, member, rfl⟩ | ⟨referrer, member, rfl⟩)
    · exact ⟨member, .inl rfl⟩
    · exact ⟨member, .inr rfl⟩
  · rintro ⟨member, rfl | rfl⟩
    · exact .inl ⟨edge.2, member, rfl⟩
    · exact .inr ⟨edge.1, member, rfl⟩

/-- An update of a row that does not exist changes nothing. -/
def updateDrvStatus (db : Database DrvId) (drvId : DrvId) (state : DrvBuildState) : Database DrvId where
  drvs := db.drvs.modify drvId fun drv => { drv with buildState := state }
  keyed other drv found := by
    rw [Table.modify_get] at found
    split at found
    · obtain ⟨row, held, same⟩ := Option.map_eq_some_iff.mp found
      rw [← same]
      exact db.keyed other row held
    · exact db.keyed other drv found
  refs := db.refs
  transitiveFailures := db.transitiveFailures

/-- The unique constraints ignore rows that are there already; an existing drv
row keeps its state. -/
def insertDrv (db : Database DrvId) (drv : Drv DrvId) : Database DrvId :=
  match bound : db.drvs.get drv.drvPath with
  | some _ => db
  | none =>
    { db with
      drvs := db.drvs.push drv.drvPath drv
      keyed := fun other row found => by
        rw [Table.push_get] at found
        split at found
        · rename_i same
          cases found
          exact same.symm
        · exact db.keyed other row found }

def insertDrvsAndReferences (db : Database DrvId) (drvs : List (Drv DrvId)) (refs : List (DrvId × DrvId)) :
    Database DrvId :=
  let inserted := drvs.foldl insertDrv db
  { inserted with refs := inserted.refs ++ (refs.filter (· ∉ inserted.refs)).dedup }

/-- Record each referrer as blocked and set its row to transitively failed. -/
def insertTransitiveFailures (db : Database DrvId) (failedDrv : DrvId) (referrers : List DrvId) :
    Database DrvId :=
  referrers.foldl (fun db referrer =>
    let recorded := if (failedDrv, referrer) ∈ db.transitiveFailures then db.transitiveFailures
      else db.transitiveFailures ++ [(failedDrv, referrer)]
    { db with transitiveFailures := recorded }.updateDrvStatus referrer .transitiveFailure) db

/-- Forget whom a drv blocked. The rows of the blocked drvs stay as they are. -/
def clearTransitiveFailures (db : Database DrvId) (failedDrv : DrvId) : Database DrvId :=
  { db with transitiveFailures := db.transitiveFailures.filter (·.1 ≠ failedDrv) }

section Rows

variable {db : Database DrvId}

theorem updateDrvStatus_rowState (drvId other : DrvId) (state : DrvBuildState) :
    (db.updateDrvStatus drvId state).rowState other =
      if other = drvId then (db.rowState other).map fun _ => state else db.rowState other := by
  simp only [rowState, getDrv, updateDrvStatus, Table.modify_get]
  split <;> simp [Function.comp_def]

variable (failedDrv : DrvId)

@[simp] theorem clearTransitiveFailures_rowState (other : DrvId) :
    (db.clearTransitiveFailures failedDrv).rowState other = db.rowState other := rfl

theorem insertTransitiveFailures_rowState (other : DrvId) (referrers : List DrvId) :
    (db.insertTransitiveFailures failedDrv referrers).rowState other =
      if other ∈ referrers then (db.rowState other).map fun _ => .transitiveFailure
      else db.rowState other := by
  induction referrers generalizing db with
  | nil => rfl
  | cons head rest ih =>
    rw [insertTransitiveFailures, List.foldl_cons, ← insertTransitiveFailures, ih,
      updateDrvStatus_rowState]
    by_cases same : other = head
    · subst other
      by_cases later : head ∈ rest <;> simp [later, rowState, getDrv, Function.comp_def]
    · simp [same, rowState, getDrv]

theorem insertTransitiveFailures_frame (referrers : List DrvId) :
    (db.insertTransitiveFailures failedDrv referrers).drvs.keys = db.drvs.keys ∧
      (db.insertTransitiveFailures failedDrv referrers).refs = db.refs := by
  induction referrers generalizing db with
  | nil => exact ⟨rfl, rfl⟩
  | cons head rest ih =>
    rw [insertTransitiveFailures, List.foldl_cons, ← insertTransitiveFailures]
    exact ih

theorem insertDrv_getDrv (drv : Drv DrvId) (other : DrvId) : (db.insertDrv drv).getDrv other =
    if other = drv.drvPath then some ((db.getDrv other).getD drv) else db.getDrv other := by
  unfold insertDrv
  split
  · rename_i row bound
    split
    · rename_i same
      rw [same, getDrv, bound]
      rfl
    · rfl
  · rename_i bound
    rw [getDrv, Table.push_get]
    split
    · rename_i same
      rw [same, getDrv, bound]
      rfl
    · rfl

theorem insertDrv_refs (drv : Drv DrvId) : (db.insertDrv drv).refs = db.refs := by
  unfold insertDrv
  split <;> rfl

theorem insertDrvsAndReferences_frame (db : Database DrvId) (drvs : List (Drv DrvId))
    (refs : List (DrvId × DrvId)) :
    (∀ drvId, drvId ∈ (db.insertDrvsAndReferences drvs refs).drvs.keys ↔
      drvId ∈ db.drvs.keys ∨ drvId ∈ drvs.map (·.drvPath)) ∧
      (∀ drvId ∈ db.drvs.keys, (db.insertDrvsAndReferences drvs refs).rowState drvId = db.rowState drvId) ∧
      ∀ edge, edge ∈ (db.insertDrvsAndReferences drvs refs).refs ↔ edge ∈ db.refs ∨ edge ∈ refs := by
  have inserted : ∀ db : Database DrvId,
      (∀ drvId, drvId ∈ (drvs.foldl insertDrv db).drvs.keys ↔
        drvId ∈ db.drvs.keys ∨ drvId ∈ drvs.map (·.drvPath)) ∧
      (∀ drvId ∈ db.drvs.keys, (drvs.foldl insertDrv db).getDrv drvId = db.getDrv drvId) ∧
      (drvs.foldl insertDrv db).refs = db.refs := by
    induction drvs with
    | nil => exact fun db => ⟨by simp, fun _ _ => rfl, rfl⟩
    | cons drv rest ih =>
      intro db
      obtain ⟨keys, kept, edges⟩ := ih (db.insertDrv drv)
      have grown : ∀ drvId, drvId ∈ (db.insertDrv drv).drvs.keys ↔
          drvId ∈ db.drvs.keys ∨ drvId = drv.drvPath := by
        intro drvId
        rw [Table.mem_keys, ← getDrv, insertDrv_getDrv, Table.mem_keys, ← getDrv]
        split <;> simp_all
      refine ⟨fun drvId => ?_, fun drvId member => ?_, edges.trans (insertDrv_refs drv)⟩
      · rw [List.foldl_cons, keys, grown, List.map_cons, List.mem_cons, or_assoc]
      · rw [List.foldl_cons, kept drvId ((grown drvId).mpr (.inl member)), insertDrv_getDrv]
        obtain ⟨row, found⟩ := Table.get_of_mem_keys member
        rw [getDrv, found]
        split <;> rfl
  obtain ⟨keys, kept, edges⟩ := inserted db
  refine ⟨keys, fun drvId member => ?_, fun edge => ?_⟩
  · exact congrArg (Option.map (·.buildState)) (kept drvId member)
  · simp only [insertDrvsAndReferences, List.mem_append, List.mem_dedup, List.mem_filter, edges,
      decide_eq_true_eq]
    tauto

end Rows

end Database

end EkaCI
