import EkaCI.Jobs.Differences

/-! What is left of a jobset whose recording was interrupted, and what repositories
with the same commits have to do with each other. The jobset, the drvs and the jobs
are written by separate statements. -/

namespace EkaCI

open Lib

variable {DrvId : Type} [DecidableEq DrvId]

/-- The statement at which a call fails or the process ends. Only a failed query for
the base jobs is passed over. -/
inductive RecordingFault where
  | insertJobset
  | selectJobset
  | baseJobs
  | crashAtBaseJobs
  | insertDrvs
  | createJobs
  | metadata
  deriving DecidableEq

/-- The call ends between the jobset and its jobs. -/
def RecordingFault.interrupts : RecordingFault → Bool
  | .selectJobset | .crashAtBaseJobs | .insertDrvs | .createJobs => true
  | .insertJobset | .baseJobs | .metadata => false

/-- A call of `create_github_jobset_with_jobs`, with the rows of the base in the order
in which they are read. -/
structure RecordingCall (DrvId : Type) where
  info : CICheckInfo
  name : String
  jobs : List NixEvalDrv
  baseJobs : List (String × DrvId)
  fault : Option RecordingFault

namespace RecordingCall

/-- The base jobs that the call compares with. -/
def compared (call : RecordingCall DrvId) : Option (List (String × DrvId)) :=
  match call.info.baseCommit with
  | none => none
  | some _ => if call.fault = some .baseJobs then none else some call.baseJobs

def interrupted (call : RecordingCall DrvId) : Bool := call.fault.any RecordingFault.interrupts

/-- The evaluated pairs that are to have a job row. -/
def needed (fromStr : String → Option DrvId) (call : RecordingCall DrvId) : List (String × DrvId) :=
  (evaluated fromStr call.jobs).filter fun pair =>
    (jobDifference (collect (call.compared.getD [])) pair.1 pair.2).isSome

end RecordingCall

namespace JobDatabase

/-- The rows that the call leaves, and whether it returned `Ok`. -/
def recordJobset (fromStr : String → Option DrvId) (db : JobDatabase DrvId) (call : RecordingCall DrvId) :
    Bool × JobDatabase DrvId :=
  if call.fault = some .insertJobset then (false, db)
  else
    match db.createJobset call.info.commit call.name call.info.owner call.info.repoName with
    | none => (false, db)
    | some (jobset, created) =>
      if call.interrupted then (false, created)
      else (call.fault ≠ some .metadata, created.createJobsForJobset fromStr jobset call.jobs call.compared)

/-- The job rows of a commit and a job in a repository. -/
def ownRowsAt (db : JobDatabase DrvId) (owner repoName sha name : String) : List (Job DrvId) :=
  db.jobs.filter fun row => db.jobsets.any fun jobset =>
    jobset.rowid = row.jobset ∧ jobset.sha = sha ∧ jobset.job = name ∧ jobset.owner = owner ∧ jobset.repoName = repoName

/-- The stored jobs of the base of a call. -/
def baseRows (db : JobDatabase DrvId) (call : RecordingCall DrvId) : List (String × DrvId) :=
  match call.info.baseCommit with
  | some base => db.getJobsetJobsBySha base call.name
  | none => []

/-- The stored jobs of the base in the repository of the call. -/
def ownBaseRows (db : JobDatabase DrvId) (call : RecordingCall DrvId) : List (String × DrvId) :=
  match call.info.baseCommit with
  | some base => (db.ownRowsAt call.info.owner call.info.repoName base call.name).map fun row => (row.name, row.drvId)
  | none => []

end JobDatabase

/-- The database, with the evaluations for which a jobset was stored and the pairs
that each was to record. -/
structure Recordings (DrvId : Type) where
  db : JobDatabase DrvId
  evaluations : List (CICheckInfo × String × List (String × DrvId))

namespace Recordings

def start (buildState : DrvId → DrvBuildState) : Recordings DrvId where
  db := .empty buildState
  evaluations := []

def step (fromStr : String → Option DrvId) (state : Recordings DrvId) (call : RecordingCall DrvId) :
    Option (Recordings DrvId) :=
  if call.baseJobs.isPerm (state.db.baseRows call) then
    some {
      db := (state.db.recordJobset fromStr call).2
      evaluations :=
        if call.fault ≠ some .insertJobset ∧
            (state.db.createJobset call.info.commit call.name call.info.owner call.info.repoName).isSome then
          state.evaluations ++ [(call.info, call.name, call.needed fromStr)]
        else state.evaluations }
  else none

/-- A jobset that is there has all job rows of its evaluation. -/
def Recorded (state : Recordings DrvId) : Prop :=
  ∀ info name pairs, (info, name, pairs) ∈ state.evaluations →
    state.db.hasJobset info.commit name info.owner info.repoName = true →
      ∀ pair ∈ pairs, ∃ row ∈ state.db.ownRowsAt info.owner info.repoName info.commit name, (row.name, row.drvId) = pair

/-- Other repositories do not matter for a call, and it does not matter for them. -/
structure Separate (fromStr : String → Option DrvId) (state : Recordings DrvId) (call : RecordingCall DrvId) : Prop where
  succeeds : call.fault = none → (state.db.recordJobset fromStr call).1 = true
  kept : ∀ jobset ∈ state.db.jobsets, ¬ (jobset.owner = call.info.owner ∧ jobset.repoName = call.info.repoName) →
    jobset ∈ (state.db.recordJobset fromStr call).2.jobsets ∧
      (state.db.recordJobset fromStr call).2.jobs.filter (·.jobset = jobset.rowid) =
        state.db.jobs.filter (·.jobset = jobset.rowid)
  base : ∀ pairs, call.compared = some pairs → pairs.Perm (state.db.ownBaseRows call)

/-- No other repository has a jobset of this name at the commit or at the base that is
looked up, and the call is not interrupted before its jobs if it has any to record. -/
structure Heeds (fromStr : String → Option DrvId) (state : Recordings DrvId) (call : RecordingCall DrvId) : Prop where
  own : ∀ jobset ∈ state.db.jobsets, jobset.job = call.name →
    jobset.sha = call.info.commit ∨ (call.compared.isSome = true ∧ some jobset.sha = call.info.baseCommit) →
      jobset.owner = call.info.owner ∧ jobset.repoName = call.info.repoName
  whole : call.interrupted = true → call.needed fromStr = []

variable {fromStr : String → Option DrvId} {state next : Recordings DrvId} {call : RecordingCall DrvId}

variable {db created : JobDatabase DrvId} {name owner repoName sha : String} {rowid : Nat}

omit [DecidableEq DrvId] in
theorem createJobset_cases (done : db.createJobset sha name owner repoName = some (rowid, created)) :
    created.jobs = db.jobs ∧ ∃ jobset ∈ created.jobsets,
      (jobset.rowid = rowid ∧ jobset.sha = sha ∧ jobset.job = name ∧ jobset.owner = owner ∧ jobset.repoName = repoName) ∧
        (created.jobsets = db.jobsets ∨ rowid = db.nextRowid ∧ created.jobsets = db.jobsets ++ [jobset]) := by
  obtain ⟨jobset, found, same⟩ := Option.map_eq_some_iff.mp done
  cases same
  have member := List.mem_of_find?_eq_some found
  have named : jobset.sha = sha ∧ jobset.job = name ∧ jobset.owner = owner ∧ jobset.repoName = repoName := by
    simpa using List.find?_some found
  refine ⟨rfl, jobset, member, ⟨rfl, named⟩, ?_⟩
  unfold insertIgnore at member ⊢
  split at member
  · rename_i taken
    exact .inl (if_pos taken)
  · rename_i free
    rw [if_neg free]
    rcases mem_snoc.mp member with old | new
    · exact absurd (List.any_eq_true.mpr ⟨jobset, old, by simp [named]⟩) free
    · rw [new]
      exact .inr ⟨rfl, rfl⟩

omit [DecidableEq DrvId] in
theorem createJobset_isSome
    (own : ∀ jobset ∈ db.jobsets, jobset.job = name → jobset.sha = sha →
      jobset.owner = owner ∧ jobset.repoName = repoName) :
    (db.createJobset sha name owner repoName).isSome = true := by
  rw [JobDatabase.createJobset, Option.isSome_map, List.find?_isSome]
  unfold insertIgnore
  split
  · rename_i taken
    obtain ⟨jobset, member, same⟩ := List.any_eq_true.mp taken
    have key : jobset.sha = sha ∧ jobset.job = name := by simpa using same
    exact ⟨jobset, member, by simpa [key] using own jobset member key.2 key.1⟩
  · exact ⟨_, List.mem_append_right _ (List.mem_singleton.mpr rfl), by simp⟩

/-- The cases of a call: nothing was stored, or its jobset, with its jobs unless it
was interrupted. -/
theorem recordJobset_cases (fromStr : String → Option DrvId) (db : JobDatabase DrvId) (call : RecordingCall DrvId) :
    ((call.fault = some .insertJobset ∨
        db.createJobset call.info.commit call.name call.info.owner call.info.repoName = none) ∧
      db.recordJobset fromStr call = (false, db)) ∨
    ∃ rowid created, call.fault ≠ some .insertJobset ∧
      db.createJobset call.info.commit call.name call.info.owner call.info.repoName = some (rowid, created) ∧
      (call.interrupted = true ∧ db.recordJobset fromStr call = (false, created) ∨
        call.interrupted = false ∧ db.recordJobset fromStr call =
          (decide (call.fault ≠ some .metadata), created.createJobsForJobset fromStr rowid call.jobs call.compared)) := by
  by_cases first : call.fault = some .insertJobset
  · exact .inl ⟨.inl first, if_pos first⟩
  · cases done : db.createJobset call.info.commit call.name call.info.owner call.info.repoName with
    | none =>
      refine .inl ⟨.inr rfl, ?_⟩
      rw [JobDatabase.recordJobset, if_neg first, done]
    | some pair =>
      obtain ⟨rowid, created⟩ := pair
      refine .inr ⟨rowid, created, first, rfl, ?_⟩
      rw [JobDatabase.recordJobset, if_neg first, done]
      cases interrupted : call.interrupted with
      | true => exact .inl ⟨rfl, by simp⟩
      | false => exact .inr ⟨rfl, by simp⟩

omit [DecidableEq DrvId] in
theorem mem_ownRowsAt {row : Job DrvId} :
    row ∈ db.ownRowsAt owner repoName sha name ↔ row ∈ db.jobs ∧ ∃ jobset ∈ db.jobsets, jobset.rowid = row.jobset ∧
      jobset.sha = sha ∧ jobset.job = name ∧ jobset.owner = owner ∧ jobset.repoName = repoName := by
  rw [JobDatabase.ownRowsAt, List.mem_filter, List.any_eq_true]
  simp

theorem recordJobset_grows (fromStr : String → Option DrvId) (db : JobDatabase DrvId) (call : RecordingCall DrvId) :
    db.jobsets ⊆ (db.recordJobset fromStr call).2.jobsets ∧ db.jobs ⊆ (db.recordJobset fromStr call).2.jobs := by
  rcases recordJobset_cases fromStr db call with ⟨-, same⟩ | ⟨rowid, created, -, done, outcome⟩
  · rw [same]
    exact ⟨fun _ member => member, fun _ member => member⟩
  · obtain ⟨jobs, jobset, -, -, grown⟩ := createJobset_cases done
    have jobsets : db.jobsets ⊆ created.jobsets := by
      rcases grown with same | ⟨-, grown⟩
      · rw [same]
        exact fun _ member => member
      · rw [grown]
        exact List.subset_append_left _ _
    rcases outcome with ⟨-, same⟩ | ⟨-, same⟩
    · rw [same, jobs]
      exact ⟨jobsets, fun _ member => member⟩
    · rw [same]
      refine ⟨jobsets, ?_⟩
      rw [← jobs]
      exact subset_foldl_insertIgnore _ _

theorem needed_recorded
    (done : db.createJobset call.info.commit call.name call.info.owner call.info.repoName = some (rowid, created))
    {pair : String × DrvId} (needed : pair ∈ call.needed fromStr) :
    ∃ row ∈ (created.createJobsForJobset fromStr rowid call.jobs call.compared).ownRowsAt call.info.owner
      call.info.repoName call.info.commit call.name, (row.name, row.drvId) = pair := by
  obtain ⟨-, jobset, member, ⟨same, named⟩, -⟩ := createJobset_cases done
  obtain ⟨listed, differs⟩ := List.mem_filter.mp needed
  obtain ⟨difference, found⟩ := Option.isSome_iff_exists.mp differs
  have made : (⟨rowid, pair.2, pair.1, difference⟩ : Job DrvId) ∈
      jobData fromStr rowid call.jobs (collect (call.compared.getD [])) :=
    JobHistory.mem_jobData.mpr ⟨rfl, listed, found⟩
  obtain ⟨row, stored, key⟩ := @exists_mem_foldl_insertIgnore _ _ _
    (fun row : Job DrvId => (row.jobset, row.name, row.drvId)) created.jobs _ _ made
  obtain ⟨sameJobset, samePair⟩ : row.jobset = rowid ∧ (row.name, row.drvId) = pair := by simpa using key
  exact ⟨row, mem_ownRowsAt.mpr ⟨stored, jobset, member, same.trans sameJobset.symm, named⟩, samePair⟩

/-- Every pair that was to be recorded has its row, and jobsets have their own numbers. -/
structure Whole (state : Recordings DrvId) : Prop where
  rows : ∀ info name pairs, (info, name, pairs) ∈ state.evaluations → ∀ pair ∈ pairs,
    ∃ row ∈ state.db.ownRowsAt info.owner info.repoName info.commit name, (row.name, row.drvId) = pair
  numbers : (state.db.jobsets.map JobSet.rowid).Nodup

theorem recordJobset_numbers (numbers : (db.jobsets.map JobSet.rowid).Nodup) :
    ((db.recordJobset fromStr call).2.jobsets.map JobSet.rowid).Nodup := by
  rcases recordJobset_cases fromStr db call with ⟨-, same⟩ | ⟨rowid, created, -, done, outcome⟩
  · rw [same]
    exact numbers
  · obtain ⟨-, jobset, -, ⟨named, -⟩, grown⟩ := createJobset_cases done
    have distinct : (created.jobsets.map JobSet.rowid).Nodup := by
      rcases grown with same | ⟨fresh, grown⟩
      · rw [same]
        exact numbers
      · rw [grown, List.map_append, List.nodup_append]
        refine ⟨numbers, List.nodup_singleton _, ?_⟩
        intro number old last new
        obtain ⟨earlier, member, rfl⟩ := List.mem_map.mp old
        rw [List.mem_singleton.mp new, named, fresh]
        exact Nat.ne_of_lt (JobHistory.rowid_lt_nextRowid member)
    rcases outcome with ⟨-, same⟩ | ⟨-, same⟩
    · rw [same]
      exact distinct
    · rw [same]
      exact distinct

/-- Every job belongs to a jobset, which has its own number. -/
structure Linked (db : JobDatabase DrvId) : Prop where
  rows : ∀ row ∈ db.jobs, ∃ jobset ∈ db.jobsets, jobset.rowid = row.jobset
  numbers : (db.jobsets.map JobSet.rowid).Nodup

theorem Linked.recordJobset (linked : Linked db) (fromStr : String → Option DrvId) (call : RecordingCall DrvId) :
    Linked (db.recordJobset fromStr call).2 ∧
      ∀ row ∈ (db.recordJobset fromStr call).2.jobs, ∀ jobset ∈ (db.recordJobset fromStr call).2.jobsets,
        jobset.rowid = row.jobset →
          (∃ old ∈ db.jobs, old.name = row.name ∧ jobset ∈ db.jobsets ∧ jobset.rowid = old.jobset) ∨
            (∃ job ∈ call.jobs, job.attr = row.name) ∧ jobset.owner = call.info.owner ∧
              jobset.repoName = call.info.repoName := by
  have distinct : ((db.recordJobset fromStr call).2.jobsets.map JobSet.rowid).Nodup := recordJobset_numbers linked.numbers
  have grows := recordJobset_grows fromStr db call
  -- The jobset of a job from before is one from before: a new one has a number of its own.
  have before : ∀ old ∈ db.jobs, ∀ jobset ∈ (db.recordJobset fromStr call).2.jobsets, jobset.rowid = old.jobset →
      jobset ∈ db.jobsets := by
    intro old stored jobset member same
    obtain ⟨own, known, number⟩ := linked.rows old stored
    have one : jobset = own :=
      List.inj_on_of_nodup_map distinct member (grows.1 known) (same.trans number.symm)
    rw [one]
    exact known
  rcases recordJobset_cases fromStr db call with ⟨-, same⟩ | ⟨rowid, created, -, done, outcome⟩
  · rw [same]
    exact ⟨linked, fun row stored jobset member number => .inl ⟨row, stored, rfl, member, number⟩⟩
  · obtain ⟨jobs, own, ownMember, ⟨ownNumber, -, -, owner, repoName⟩, -⟩ := createJobset_cases done
    rcases outcome with ⟨-, same⟩ | ⟨-, same⟩
    · rw [same] at before distinct grows ⊢
      refine ⟨⟨fun row stored => ?_, distinct⟩, fun row stored jobset member number => ?_⟩
      · rw [jobs] at stored
        obtain ⟨jobset, known, number⟩ := linked.rows row stored
        exact ⟨jobset, grows.1 known, number⟩
      · rw [jobs] at stored
        exact .inl ⟨row, stored, rfl, before row stored jobset member number, number⟩
    · rw [same] at before distinct grows ⊢
      have either : ∀ row ∈ (created.createJobsForJobset fromStr rowid call.jobs call.compared).jobs,
          (∃ old ∈ db.jobs, old.jobset = row.jobset ∧ old.name = row.name) ∨
            row.jobset = rowid ∧ ∃ job ∈ call.jobs, job.attr = row.name := by
        intro row stored
        have key := List.mem_map_of_mem (f := fun row : Job DrvId => (row.jobset, row.name, row.drvId)) stored
        rcases mem_keys_foldl_insertIgnore.mp key with old | new
        · obtain ⟨other, known, equal⟩ := List.mem_map.mp old
          rw [jobs] at known
          simp only [Prod.mk.injEq] at equal
          exact .inl ⟨other, known, equal.1, equal.2.1⟩
        · obtain ⟨made, added, equal⟩ := List.mem_map.mp new
          simp only [Prod.mk.injEq] at equal
          obtain ⟨number, evaluated, -⟩ := JobHistory.mem_jobData.mp added
          obtain ⟨job, given, pair⟩ := List.mem_filterMap.mp evaluated
          obtain ⟨drvId, -, pair⟩ := Option.map_eq_some_iff.mp pair
          refine .inr ⟨equal.1.symm.trans number, job, given, ?_⟩
          rw [← equal.2.1]
          exact (Prod.mk.inj pair).1
      refine ⟨⟨fun row stored => ?_, distinct⟩, fun row stored jobset member number => ?_⟩
      · rcases either row stored with ⟨old, known, number, -⟩ | ⟨number, -⟩
        · obtain ⟨jobset, member, ofOld⟩ := linked.rows old known
          exact ⟨jobset, grows.1 member, ofOld.trans number⟩
        · exact ⟨own, ownMember, ownNumber.trans number.symm⟩
      · rcases either row stored with ⟨old, known, ofOld, named⟩ | ⟨ofOwn, given⟩
        · have joined := number.trans ofOld.symm
          exact .inl ⟨old, known, named, before old known jobset member joined, joined⟩
        · have one : jobset = own :=
            List.inj_on_of_nodup_map distinct member ownMember (number.trans (ofOwn.trans ownNumber.symm))
          rw [one]
          exact .inr ⟨given, owner, repoName⟩

theorem Whole.step (whole : Whole state) (heeds : Heeds fromStr state call)
    (taken : state.step fromStr call = some next) : Whole next := by
  unfold Recordings.step at taken
  split at taken
  · cases taken
    refine ⟨?_, recordJobset_numbers whole.numbers⟩
    obtain ⟨jobsets, jobs⟩ := recordJobset_grows fromStr state.db call
    intro info name pairs member pair listed
    -- What was recorded before is still there.
    have earlier : (info, name, pairs) ∈ state.evaluations → ∃ row ∈
        (state.db.recordJobset fromStr call).2.ownRowsAt info.owner info.repoName info.commit name,
          (row.name, row.drvId) = pair := by
      intro old
      obtain ⟨row, stored, same⟩ := whole.rows info name pairs old pair listed
      obtain ⟨present, jobset, known, named⟩ := mem_ownRowsAt.mp stored
      exact ⟨row, mem_ownRowsAt.mpr ⟨jobs present, jobset, jobsets known, named⟩, same⟩
    split at member
    · rename_i stored
      rcases mem_snoc.mp member with old | new
      · exact earlier old
      · cases new
        rcases recordJobset_cases fromStr state.db call with ⟨nothing, -⟩ | ⟨rowid, created, -, done, outcome⟩
        · rcases nothing with first | failed
          · exact absurd first stored.1
          · rw [failed] at stored
            cases stored.2
        · rcases outcome with ⟨interrupted, -⟩ | ⟨-, same⟩
          · rw [heeds.whole interrupted] at listed
            cases listed
          · rw [same]
            exact needed_recorded done listed
    · exact earlier member
  · cases taken

theorem baseRows_eq (heeds : Heeds fromStr state call) (compares : call.compared.isSome = true) :
    state.db.baseRows call = state.db.ownBaseRows call := by
  cases based : call.info.baseCommit with
  | none => simp only [JobDatabase.baseRows, JobDatabase.ownBaseRows, based]
  | some base =>
    simp only [JobDatabase.baseRows, JobDatabase.ownBaseRows, based, JobDatabase.getJobsetJobsBySha]
    congr 1
    refine List.filter_congr fun row _ => ?_
    rw [Bool.eq_iff_iff, List.any_eq_true, List.any_eq_true]
    constructor
    · rintro ⟨jobset, member, same⟩
      obtain ⟨rowid, sha, job⟩ : jobset.rowid = row.jobset ∧ jobset.sha = base ∧ jobset.job = call.name := by simpa using same
      have own := heeds.own jobset member job (.inr ⟨compares, by rw [sha, based]⟩)
      exact ⟨jobset, member, by simp [rowid, sha, job, own]⟩
    · rintro ⟨jobset, member, same⟩
      obtain ⟨rowid, sha, job, -⟩ : jobset.rowid = row.jobset ∧ jobset.sha = base ∧ jobset.job = call.name ∧
        jobset.owner = call.info.owner ∧ jobset.repoName = call.info.repoName := by simpa using same
      exact ⟨jobset, member, by simp [rowid, sha, job]⟩

theorem separate (whole : Whole state) (heeds : Heeds fromStr state call)
    (read : call.baseJobs.Perm (state.db.baseRows call)) : Separate fromStr state call where
  succeeds clean := by
    have some := createJobset_isSome fun jobset member job sha => heeds.own jobset member job (.inl sha)
    rcases recordJobset_cases fromStr state.db call with ⟨nothing, -⟩ | ⟨rowid, created, -, done, outcome⟩
    · rcases nothing with first | failed
      · rw [clean] at first
        cases first
      · rw [failed] at some
        cases some
    · rcases outcome with ⟨interrupted, -⟩ | ⟨-, same⟩
      · rw [RecordingCall.interrupted, clean] at interrupted
        cases interrupted
      · rw [same, clean]
        rfl
  kept jobset member foreign := by
    obtain ⟨jobsets, -⟩ := recordJobset_grows fromStr state.db call
    refine ⟨jobsets member, ?_⟩
    rcases recordJobset_cases fromStr state.db call with ⟨-, same⟩ | ⟨rowid, created, -, done, outcome⟩
    · rw [same]
    · obtain ⟨jobs, own, present, ⟨number, named⟩, grown⟩ := createJobset_cases done
      -- The number of the jobset is not that of another repository.
      have apart : jobset.rowid ≠ rowid := by
        rcases grown with same | ⟨fresh, -⟩
        · rw [same] at present
          intro equal
          have identical := List.inj_on_of_nodup_map whole.numbers member present (equal.trans number.symm)
          rw [identical] at foreign
          exact foreign ⟨named.2.2.1, named.2.2.2⟩
        · rw [fresh]
          exact Nat.ne_of_lt (JobHistory.rowid_lt_nextRowid member)
      rcases outcome with ⟨-, same⟩ | ⟨-, same⟩
      · rw [same, jobs]
      · rw [same]
        refine (filter_foldl_insertIgnore fun row made => ?_).trans (by rw [jobs])
        rw [(JobHistory.mem_jobData.mp made).1]
        simpa using Ne.symm apart
  base pairs compares := by
    have some : call.compared.isSome = true := by rw [compares]; rfl
    rw [← baseRows_eq heeds some]
    have same : pairs = call.baseJobs := by
      unfold RecordingCall.compared at compares
      split at compares
      · cases compares
      · split at compares
        · cases compares
        · exact (Option.some.inj compares).symm
    rw [same]
    exact read

/-- Recording is all or nothing and by repository, in every run whose calls are not
interrupted before their jobs and do not meet another repository's jobsets. -/
theorem run_recorded (fromStr : String → Option DrvId) (buildState : DrvId → DrvBuildState)
    {calls : List (RecordingCall DrvId)} {final : Recordings DrvId}
    (run : Run (step fromStr) (Heeds fromStr) (start buildState) calls final) :
    final.Recorded ∧ ∀ call next, Heeds fromStr final call → final.step fromStr call = some next →
      Separate fromStr final call := by
  have whole : Whole final := by
    apply run.invariant (p := Whole) ⟨(fun _ _ _ member => nomatch member), List.nodup_nil⟩
    intro state call next whole heeds taken
    exact whole.step heeds taken
  refine ⟨fun info name pairs member _ => whole.rows info name pairs member, ?_⟩
  intro call next heeds taken
  unfold Recordings.step at taken
  split at taken
  · rename_i read
    exact separate whole heeds (List.isPerm_iff.mp read)
  · cases taken

/-- A new job of a commit without a base. -/
def firstEvaluation (fault : Option RecordingFault) : RecordingCall String where
  info := ⟨"c0", none, "ekala", "corepkgs"⟩
  name := "stable"
  jobs := [⟨"hello", "hello.drv"⟩]
  baseJobs := []
  fault := fault

/-- A failure after the jobs leaves them recorded. -/
theorem firstEvaluation_recorded : ∃ final,
    Run (step some) (Heeds some) (start fun _ => .queued) [firstEvaluation (some .metadata)] final ∧
      final.evaluations.length = 1 ∧ final.Recorded := by
  have heeds : Heeds some (start fun _ => .queued) (firstEvaluation (some .metadata)) :=
    ⟨(fun _ member => nomatch member), (fun interrupted => nomatch interrupted)⟩
  have run : Run (step some) (Heeds some) (start fun _ => .queued) [firstEvaluation (some .metadata)] _ :=
    .cons heeds rfl .start
  exact ⟨_, run, rfl, (run_recorded some (fun _ => .queued) run).1⟩

/-- If the jobs are not written, the jobset is there without them. -/
theorem firstEvaluation_not_recorded : ¬ ∀ (fromStr : String → Option String) (buildState : String → DrvBuildState)
    (calls : List (RecordingCall String)) (final : Recordings String),
    AnyRun (step fromStr) (start buildState) calls final →
      final.Recorded ∧ ∀ call next, final.step fromStr call = some next → Separate fromStr final call := by
  intro always
  have run : AnyRun (step some) (start fun _ => .queued) [firstEvaluation (some .createJobs)] _ := run_of_exec rfl
  have recorded := (always _ _ _ _ run).1
  obtain ⟨row, stored, -⟩ := recorded ⟨"c0", none, "ekala", "corepkgs"⟩ "stable" [("hello", "hello.drv")]
    List.mem_cons_self (by decide) ("hello", "hello.drv") List.mem_cons_self
  cases stored

end Recordings

end EkaCI
