import EkaCI.Graph.Database
import EkaCI.Lib.Chunks
import EkaCI.Lib.Lru
import EkaCI.Lib.Run

/-! How the evaluation service records the closure of an evaluated drv. Requisites,
the information about a drv and its references are separate queries to nix; a drv
that is known already is not looked at again. -/

namespace EkaCI

open Lib

variable {DrvId : Type}

structure NixStore (DrvId : Type) where
  /-- `nix-store --query --references`, without sources. -/
  references : DrvId → List DrvId
  /-- `nix-store --query --requisites`: the drv and all that it needs. -/
  requisites : DrvId → List DrvId
  mem_requisites : ∀ {root drvId}, drvId ∈ requisites root ↔
    Relation.ReflTransGen (fun referrer reference => reference ∈ references referrer) root drvId
  /-- `nix derivation show`, as a row that is not built yet. -/
  info : DrvId → Drv DrvId
  info_path : ∀ drvId, (info drvId).drvPath = drvId

/-- How the queries for one root end. The tasks of a chunk may finish in any order. -/
structure NixAnswers (DrvId : Type) where
  requisitesFail : Bool
  infoFails : DrvId → Bool
  refsFail : DrvId → Bool
  infoOrder : List DrvId → List DrvId
  infoOrder_perm : ∀ chunk, (infoOrder chunk).Perm chunk
  refsOrder : List DrvId → List DrvId
  refsOrder_perm : ∀ chunk, (refsOrder chunk).Perm chunk

/-- What one `InsertDrvs` command carries, or one traversal has gathered. -/
structure DrvBatch (DrvId : Type) where
  drvs : List (Drv DrvId) := []
  refs : List (DrvId × DrvId) := []

def DrvBatch.append (first second : DrvBatch DrvId) : DrvBatch DrvId where
  drvs := first.drvs ++ second.drvs
  refs := first.refs ++ second.refs

structure EvalService (DrvId : Type) where
  db : Database DrvId
  drvMap : LruCache DrvId (Drv DrvId)
  /-- The `InsertDrvs` commands sent so far. -/
  sent : List (DrvBatch DrvId)

def drvMapSize : Nat := 5000

def EvalService.init : EvalService DrvId where
  db := .empty
  drvMap := .new drvMapSize (by decide)
  sent := []

variable [DecidableEq DrvId]

namespace Database

/-- One statement inserts a chunk of references: a reference between drvs without
rows breaks a foreign key and the whole chunk is lost. -/
def insertRefsChunk (db : Database DrvId) (chunk : List (DrvId × DrvId)) : Option (Database DrvId) :=
  if chunk.all fun edge => edge.1 ∈ db.drvs.keys ∧ edge.2 ∈ db.drvs.keys then
    some (db.insertDrvsAndReferences [] chunk)
  else none

/-- Each chunk is committed on its own; the first that fails ends the loop. -/
def insertRefsChunks (db : Database DrvId) : List (List (DrvId × DrvId)) → Database DrvId × Bool
  | [] => (db, true)
  | chunk :: rest =>
    match db.insertRefsChunk chunk with
    | some db => db.insertRefsChunks rest
    | none => (db, false)

/-- `insert_drvs_and_references` with its foreign keys; whether it returned `Ok`. -/
def tryInsertDrvsAndReferences (db : Database DrvId) (batch : DrvBatch DrvId) : Database DrvId × Bool :=
  let inserted := (chunks 2339 batch.drvs).foldl (fun db chunk => chunk.foldl insertDrv db) db
  inserted.insertRefsChunks (chunks 16379 batch.refs)

end Database

/-- A drv with a row is not asked about again. -/
def fetchInfo (store : NixStore DrvId) (db : Database DrvId) (answers : NixAnswers DrvId) (drvId : DrvId) :
    Option (Drv DrvId) :=
  match db.getDrv drvId with
  | some drv => some drv
  | none => if answers.infoFails drvId then none else some (store.info drvId)

/-- A failed query counts as no references. -/
def referencePairs (store : NixStore DrvId) (answers : NixAnswers DrvId) (drvId : DrvId) : List (DrvId × DrvId) :=
  if answers.refsFail drvId then [] else (store.references drvId).map (drvId, ·)

/-- The chunks of one root: infos that could not be fetched are left out. -/
def gather (store : NixStore DrvId) (db : Database DrvId) (answers : NixAnswers DrvId) (drvIds : List DrvId) :
    DrvBatch DrvId where
  drvs := (chunks 149 drvIds).flatMap fun chunk => (answers.infoOrder chunk).filterMap (fetchInfo store db answers)
  refs := (chunks 149 drvIds).flatMap fun chunk => (answers.refsOrder chunk).flatMap (referencePairs store answers)

/-- The drvs that the cache does not hold. -/
def filterNew (drvMap : LruCache DrvId (Drv DrvId)) : List DrvId → List DrvId × LruCache DrvId (Drv DrvId)
  | [] => ([], drvMap)
  | drvId :: rest =>
    let looked := drvMap.get drvId
    let others := filterNew looked.2 rest
    (if looked.1.isNone then drvId :: others.1 else others.1, others.2)

def putAll (drvMap : LruCache DrvId (Drv DrvId)) (drvs : List (Drv DrvId)) : LruCache DrvId (Drv DrvId) :=
  drvs.foldl (fun drvMap drv => (drvMap.push drv.drvPath drv).2) drvMap

namespace EvalService

def alreadyVisitedDrv (db : Database DrvId) (drvMap : LruCache DrvId (Drv DrvId)) (drvId : DrvId) :
    Bool × LruCache DrvId (Drv DrvId) :=
  let looked := drvMap.get drvId
  match looked.1 with
  | some _ => (true, looked.2)
  | none =>
    match db.getDrv drvId with
    | some drv => (true, (looked.2.push drvId drv).2)
    | none => (false, looked.2)

/-- One job of `batch_traverse`; a path that is no derivation is skipped. -/
def visitJob (store : NixStore DrvId) (db : Database DrvId) (drvMap : LruCache DrvId (Drv DrvId))
    (job : Option DrvId × NixAnswers DrvId) : DrvBatch DrvId × LruCache DrvId (Drv DrvId) :=
  match job.1 with
  | none => ({}, drvMap)
  | some root =>
    let visited := alreadyVisitedDrv db drvMap root
    if visited.1 ∨ job.2.requisitesFail then ({}, visited.2)
    else
      let new := filterNew visited.2 (store.requisites root)
      (gather store db job.2 new.1, new.2)

def visitJobs (store : NixStore DrvId) (db : Database DrvId) :
    List (Option DrvId × NixAnswers DrvId) → LruCache DrvId (Drv DrvId) → DrvBatch DrvId × LruCache DrvId (Drv DrvId)
  | [], drvMap => ({}, drvMap)
  | job :: rest, drvMap =>
    let visited := visitJob store db drvMap job
    let others := visitJobs store db rest visited.2
    (visited.1.append others.1, others.2)

/-- The rows are stored, then the graph is told, then the cache: an error ends it. -/
def insertBatch (service : EvalService DrvId) (batch : DrvBatch DrvId) : EvalService DrvId :=
  let stored := service.db.tryInsertDrvsAndReferences batch
  if stored.2 then
    { db := stored.1, drvMap := putAll service.drvMap batch.drvs, sent := service.sent ++ [batch] }
  else { service with db := stored.1 }

def batchTraverse (store : NixStore DrvId) (service : EvalService DrvId)
    (jobs : List (Option DrvId × NixAnswers DrvId)) : EvalService DrvId :=
  let gathered := visitJobs store service.db jobs service.drvMap
  let looked := { service with drvMap := gathered.2 }
  if gathered.1.drvs = [] then looked else looked.insertBatch gathered.1

/-- Here an info that cannot be fetched ends the traversal. -/
def deepTraverse (store : NixStore DrvId) (service : EvalService DrvId) (root : DrvId) (answers : NixAnswers DrvId) :
    EvalService DrvId :=
  if answers.requisitesFail then service
  else
    let new := filterNew service.drvMap (store.requisites root)
    let looked := { service with drvMap := new.2 }
    if new.1.any fun drvId => (fetchInfo store service.db answers drvId).isNone then looked
    else looked.insertBatch (gather store service.db answers new.1)

end EvalService

inductive TraversalCall (DrvId : Type) where
  | batch (jobs : List (Option DrvId × NixAnswers DrvId))
  | deep (root : DrvId) (answers : NixAnswers DrvId)

def EvalService.step (store : NixStore DrvId) (service : EvalService DrvId) : TraversalCall DrvId → Option (EvalService DrvId)
  | .batch jobs => some (service.batchTraverse store jobs)
  | .deep root answers => some (service.deepTraverse store root answers)

end EkaCI
