import EkaCI.Channels.Evaluator
import EkaCI.Lib.Run

/-! How the jobs of a commit are recorded as differences against a base commit.
The base is read back from the stored rows, which leave out what had not changed
there: the rows stand for the evaluation only where they cover it. -/

namespace EkaCI

open Lib

variable {DrvId : Type} [DecidableEq DrvId]

structure CICheckInfo where
  commit : String
  baseCommit : Option String
  owner : String
  repoName : String
  deriving DecidableEq

structure NixEvalDrv where
  attr : String
  drvPath : String

/-- The evaluated pairs; a path that is no derivation is left out. -/
def evaluated (fromStr : String → Option DrvId) (jobs : List NixEvalDrv) : List (String × DrvId) :=
  jobs.filterMap fun job => (fromStr job.drvPath).map fun drvId => (job.attr, drvId)

namespace JobDatabase

def hasJobset (db : JobDatabase DrvId) (sha name owner repoName : String) : Bool :=
  db.jobsets.any fun jobset =>
    jobset.sha = sha ∧ jobset.job = name ∧ jobset.owner = owner ∧ jobset.repoName = repoName

def nextRowid (db : JobDatabase DrvId) : Nat := (db.jobsets.map JobSet.rowid).foldr max 0 + 1

/-- The table has one jobset for each commit and job, whatever the repository: the
row of another repository is in the way and then is not found. -/
def createJobset (db : JobDatabase DrvId) (sha name owner repoName : String) : Option (Nat × JobDatabase DrvId) :=
  let jobsets := insertIgnore (fun jobset => (jobset.sha, jobset.job)) db.jobsets ⟨db.nextRowid, sha, name, owner, repoName⟩
  (jobsets.find? fun jobset =>
    jobset.sha = sha ∧ jobset.job = name ∧ jobset.owner = owner ∧ jobset.repoName = repoName).map fun jobset =>
    (jobset.rowid, { db with jobsets := jobsets })

/-- The job rows of a commit and a job. -/
def rowsAt (db : JobDatabase DrvId) (sha name : String) : List (Job DrvId) :=
  db.jobs.filter fun row => db.jobsets.any fun jobset =>
    jobset.rowid = row.jobset ∧ jobset.sha = sha ∧ jobset.job = name

def getJobsetJobsBySha (db : JobDatabase DrvId) (sha name : String) : List (String × DrvId) :=
  (db.rowsAt sha name).map fun row => (row.name, row.drvId)

end JobDatabase

/-- How a job compares with the base; nothing is recorded of what is unchanged. -/
def jobDifference (baseMap : String → Option DrvId) (attr : String) (drvId : DrvId) : Option JobDifference :=
  match baseMap attr with
  | some base => if base = drvId then none else some .changed
  | none => some .new

def jobData (fromStr : String → Option DrvId) (jobset : Nat) (jobs : List NixEvalDrv)
    (baseMap : String → Option DrvId) : List (Job DrvId) :=
  (evaluated fromStr jobs).filterMap fun pair =>
    (jobDifference baseMap pair.1 pair.2).map fun difference => ⟨jobset, pair.2, pair.1, difference⟩

namespace JobDatabase

def createJobsForJobset (db : JobDatabase DrvId) (fromStr : String → Option DrvId) (jobset : Nat)
    (jobs : List NixEvalDrv) (baseJobs : Option (List (String × DrvId))) : JobDatabase DrvId :=
  let rows := jobData fromStr jobset jobs (collect (baseJobs.getD []))
  { db with jobs := rows.foldl (insertIgnore fun row => (row.jobset, row.name, row.drvId)) db.jobs }

def createGithubJobsetWithJobs (db : JobDatabase DrvId) (fromStr : String → Option DrvId) (info : CICheckInfo)
    (name : String) (jobs : List NixEvalDrv) (baseJobs : Option (List (String × DrvId))) :
    Option (JobDatabase DrvId) :=
  (db.createJobset info.commit name info.owner info.repoName).map fun (jobset, db) =>
    db.createJobsForJobset fromStr jobset jobs baseJobs

end JobDatabase

/-- The database, with the requests that have created a jobset. -/
structure JobHistory (DrvId : Type) where
  db : JobDatabase DrvId
  recorded : List (CICheckInfo × String)

/-- A job of a commit is to be recorded; the rows of its base were read in some
order. -/
structure JobEvent (DrvId : Type) where
  info : CICheckInfo
  job : String
  baseJobs : List (String × DrvId)

namespace JobHistory

def start (buildState : DrvId → DrvBuildState) : JobHistory DrvId where
  db := .empty buildState
  recorded := []

def storedBase (history : JobHistory DrvId) (info : CICheckInfo) (job : String) : List (String × DrvId) :=
  match info.baseCommit with
  | some base => history.db.getJobsetJobsBySha base job
  | none => []

variable (fromStr : String → Option DrvId) (eval : String → String → List NixEvalDrv)

/-- One job of `process_github_repo_config`, up to the rows that are stored. -/
def step (history : JobHistory DrvId) (event : JobEvent DrvId) : Option (JobHistory DrvId) :=
  if event.baseJobs.isPerm (history.storedBase event.info event.job) then
    if history.db.hasJobset event.info.commit event.job event.info.owner event.info.repoName then some history
    else
      match history.db.createGithubJobsetWithJobs fromStr event.info event.job (eval event.info.commit event.job)
          (event.info.baseCommit.map fun _ => event.baseJobs) with
      | none => some history
      | some db => some { db := db, recorded := history.recorded ++ [(event.info, event.job)] }
  else none

/-- The evaluation of the base of a request. -/
def evaluatedBase (info : CICheckInfo) (job : String) : List (String × DrvId) :=
  match info.baseCommit with
  | some base => evaluated fromStr (eval base job)
  | none => []

end JobHistory

/-- What a row says of a pair is right with respect to an evaluation of the base. -/
def JobDifference.IsRight (base : List (String × DrvId)) (pair : String × DrvId) : JobDifference → Prop
  | .new => ∀ other ∈ base, other.1 ≠ pair.1
  | .changed => (∃ other ∈ base, other.1 = pair.1) ∧ pair ∉ base
  | .removed => False

namespace JobHistory

variable (fromStr : String → Option DrvId) (eval : String → String → List NixEvalDrv)
  (readers : String → List ChannelConfig)

/-- The rows of a request are those of the two full evaluations. -/
def ExactRows (db : JobDatabase DrvId) (info : CICheckInfo) (job : String) : Prop :=
  ∀ pair difference,
    (∃ row ∈ db.rowsAt info.commit job, (row.name, row.drvId) = pair ∧ row.difference = difference) ↔
      pair ∈ evaluated fromStr (eval info.commit job) ∧ difference.IsRight (evaluatedBase fromStr eval info job) pair

/-- A channel that reads the jobset finds a row of every required attribute. -/
def RequiredRows (db : JobDatabase DrvId) (info : CICheckInfo) (job : String) : Prop :=
  ∀ channel ∈ readers info.commit, channel.owner = info.owner → channel.repo = info.repoName →
    ∀ pair ∈ evaluated fromStr (eval info.commit job), pair.1 ∈ channel.required →
      ∃ row ∈ db.rowsAt info.commit job, row.name = pair.1

def Correct (history : JobHistory DrvId) : Prop :=
  ∀ info job, (info, job) ∈ history.recorded →
    ExactRows fromStr eval history.db info job ∧ RequiredRows fromStr eval readers history.db info job

/-- The stored rows stand for the evaluation of the base at a pair. -/
def Covers (stored base : List (String × DrvId)) (pair : String × DrvId) : Prop :=
  (∃ other ∈ base, other.1 = pair.1) →
    (∃ other ∈ stored, other.1 = pair.1) ∧ (pair ∈ base → ∀ other ∈ stored, other.1 = pair.1 → other = pair)

/-- A jobset that is about to be created has a base whose rows stand for its
evaluation, except that for a channel they must not hide a required attribute. -/
def Complete (history : JobHistory DrvId) (event : JobEvent DrvId) : Prop :=
  (∀ jobset ∈ history.db.jobsets, (jobset.sha, jobset.job) ≠ (event.info.commit, event.job)) →
    (∀ pair ∈ evaluated fromStr (eval event.info.commit event.job),
      Covers (history.storedBase event.info event.job) (evaluatedBase fromStr eval event.info event.job) pair) ∧
    ∀ channel ∈ readers event.info.commit, channel.owner = event.info.owner → channel.repo = event.info.repoName →
      ∀ pair ∈ evaluated fromStr (eval event.info.commit event.job), pair.1 ∈ channel.required →
        ∃ other ∈ evaluated fromStr (eval event.info.commit event.job), other.1 = pair.1 ∧
          other ∉ history.storedBase event.info event.job

instance (stored base : List (String × DrvId)) (pair : String × DrvId) : Decidable (Covers stored base pair) :=
  inferInstanceAs (Decidable (_ → _))

instance (history : JobHistory DrvId) (event : JobEvent DrvId) :
    Decidable (Complete fromStr eval readers history event) :=
  inferInstanceAs (Decidable (_ → _))

variable {fromStr eval readers} {history next : JobHistory DrvId} {event : JobEvent DrvId}

/-- The jobset and its rows are stored. -/
def record (fromStr : String → Option DrvId) (eval : String → String → List NixEvalDrv) (history : JobHistory DrvId)
    (event : JobEvent DrvId) : JobHistory DrvId where
  db :=
    { history.db with
      jobsets := history.db.jobsets ++
        [⟨history.db.nextRowid, event.info.commit, event.job, event.info.owner, event.info.repoName⟩]
      jobs := (jobData fromStr history.db.nextRowid (eval event.info.commit event.job) (collect event.baseJobs)).foldl
        (insertIgnore fun row => (row.jobset, row.name, row.drvId)) history.db.jobs }
  recorded := history.recorded ++ [(event.info, event.job)]

omit [DecidableEq DrvId] in
theorem createJobset_eq (db : JobDatabase DrvId) {sha name owner repoName : String}
    (absent : db.hasJobset sha name owner repoName = false) :
    db.createJobset sha name owner repoName =
      if ∀ jobset ∈ db.jobsets, (jobset.sha, jobset.job) ≠ (sha, name) then
        some (db.nextRowid, { db with jobsets := db.jobsets ++ [⟨db.nextRowid, sha, name, owner, repoName⟩] })
      else none := by
  have missing : db.jobsets.find? (fun jobset =>
      jobset.sha = sha ∧ jobset.job = name ∧ jobset.owner = owner ∧ jobset.repoName = repoName) = none := by
    rw [List.find?_eq_none]
    exact fun jobset member => by simpa using List.any_eq_false.mp absent jobset member
  rw [JobDatabase.createJobset, insertIgnore]
  split
  · rename_i taken
    obtain ⟨jobset, member, same⟩ := List.any_eq_true.mp taken
    rw [missing, if_neg fun free => free jobset member (of_decide_eq_true same)]
    rfl
  · rename_i free
    rw [List.find?_append, missing, if_pos]
    · simp
    · exact fun jobset member same => free (List.any_eq_true.mpr ⟨jobset, member, decide_eq_true same⟩)

omit [DecidableEq DrvId] in
theorem getD_baseJobs (listed : event.baseJobs.Perm (history.storedBase event.info event.job)) :
    (event.info.baseCommit.map fun _ => event.baseJobs).getD [] = event.baseJobs := by
  rw [storedBase] at listed
  split at listed
  · rename_i based
    rw [based]
    rfl
  · rename_i unbased
    rw [unbased, listed.eq_nil]
    rfl

theorem step_cases (taken : step fromStr eval history event = some next) :
    next = history ∨
      event.baseJobs.Perm (history.storedBase event.info event.job) ∧
      (∀ jobset ∈ history.db.jobsets, (jobset.sha, jobset.job) ≠ (event.info.commit, event.job)) ∧
      next = record fromStr eval history event := by
  rw [step] at taken
  split at taken
  · rename_i listed
    split at taken
    · exact .inl (Option.some.inj taken).symm
    · rename_i absent
      rw [JobDatabase.createGithubJobsetWithJobs, createJobset_eq _ (Bool.not_eq_true _ |>.mp absent)] at taken
      split at taken
      · exact .inl (Option.some.inj taken).symm
      · rename_i db created
        rw [Option.map_eq_some_iff] at created
        obtain ⟨_, created, rfl⟩ := created
        split at created
        · rename_i free
          cases created
          have listed := List.isPerm_iff.mp listed
          refine .inr ⟨listed, free, ?_⟩
          rw [← Option.some.inj taken]
          simp only [record, JobDatabase.createJobsForJobset, getD_baseJobs listed]
        · cases created
  · cases taken

omit [DecidableEq DrvId] in
theorem rowid_lt_nextRowid {db : JobDatabase DrvId} {jobset : JobSet} (member : jobset ∈ db.jobsets) :
    jobset.rowid < db.nextRowid := by
  have bound : ∀ rowids : List Nat, ∀ rowid ∈ rowids, rowid ≤ rowids.foldr max 0 := by
    intro rowids
    induction rowids with
    | nil => exact List.forall_mem_nil _
    | cons first rest ih =>
      intro rowid member
      rw [List.foldr_cons]
      obtain rfl | member := List.mem_cons.mp member
      · exact le_max_left _ _
      · exact le_max_of_le_right (ih rowid member)
  exact Nat.lt_succ_of_le (bound _ _ (List.mem_map_of_mem member))

variable {row : Job DrvId} {pair : String × DrvId} {info : CICheckInfo} {job : String}

theorem mem_jobData {jobset : Nat} {jobs : List NixEvalDrv} {baseMap : String → Option DrvId} :
    row ∈ jobData fromStr jobset jobs baseMap ↔
      row.jobset = jobset ∧ (row.name, row.drvId) ∈ evaluated fromStr jobs ∧
        jobDifference baseMap row.name row.drvId = some row.difference := by
  rw [jobData, List.mem_filterMap]
  constructor
  · rintro ⟨⟨attr, drvId⟩, member, made⟩
    obtain ⟨difference, compared, rfl⟩ := Option.map_eq_some_iff.mp made
    exact ⟨rfl, member, compared⟩
  · rintro ⟨rfl, member, compared⟩
    exact ⟨(row.name, row.drvId), member, Option.map_eq_some_iff.mpr ⟨row.difference, compared, rfl⟩⟩

/-- Every row belongs to a jobset, and every jobset was created for a request. -/
structure Linked (history : JobHistory DrvId) : Prop where
  rows : ∀ row ∈ history.db.jobs, ∃ jobset ∈ history.db.jobsets, jobset.rowid = row.jobset
  jobsets : ∀ jobset ∈ history.db.jobsets, ∃ info, (info, jobset.job) ∈ history.recorded ∧ info.commit = jobset.sha
  recorded : ∀ info job, (info, job) ∈ history.recorded →
    ∃ jobset ∈ history.db.jobsets, (jobset.sha, jobset.job) = (info.commit, job)

theorem mem_record_jobs (linked : history.Linked) :
    row ∈ (record fromStr eval history event).db.jobs ↔
      row ∈ history.db.jobs ∨ row ∈ jobData fromStr history.db.nextRowid (eval event.info.commit event.job)
        (collect event.baseJobs) := by
  refine mem_foldl_insertIgnore fun first either second added same => ?_
  obtain ⟨fresh, member, compared⟩ := mem_jobData.mp added
  obtain ⟨sameJobset, sameName, sameDrv⟩ : first.jobset = second.jobset ∧ first.name = second.name ∧
      first.drvId = second.drvId := by simpa using same
  obtain stored | added := List.mem_append.mp either
  · obtain ⟨jobset, member, rowid⟩ := linked.rows first stored
    have older := rowid_lt_nextRowid member
    omega
  · obtain ⟨-, -, compared'⟩ := mem_jobData.mp added
    rw [sameName, sameDrv, compared] at compared'
    cases first
    cases second
    simp_all

omit [DecidableEq DrvId] in
theorem mem_rowsAt {db : JobDatabase DrvId} {sha name : String} :
    row ∈ db.rowsAt sha name ↔
      row ∈ db.jobs ∧ ∃ jobset ∈ db.jobsets, jobset.rowid = row.jobset ∧ (jobset.sha, jobset.job) = (sha, name) := by
  rw [JobDatabase.rowsAt, List.mem_filter, List.any_eq_true]
  simp

theorem mem_rowsAt_record_of_ne (linked : history.Linked) {sha name : String}
    (other : (event.info.commit, event.job) ≠ (sha, name)) :
    row ∈ (record fromStr eval history event).db.rowsAt sha name ↔ row ∈ history.db.rowsAt sha name := by
  rw [mem_rowsAt, mem_rowsAt, mem_record_jobs linked]
  constructor
  · rintro ⟨either, jobset, member, rowid, same⟩
    obtain member | added := List.mem_append.mp member
    · obtain stored | added := either
      · exact ⟨stored, jobset, member, rowid, same⟩
      · have older := rowid_lt_nextRowid member
        have fresh := (mem_jobData.mp added).1
        omega
    · cases List.mem_singleton.mp added
      exact absurd same other
  · rintro ⟨stored, jobset, member, rowid, same⟩
    exact ⟨.inl stored, jobset, List.mem_append_left _ member, rowid, same⟩

theorem mem_rowsAt_record (linked : history.Linked)
    (free : ∀ jobset ∈ history.db.jobsets, (jobset.sha, jobset.job) ≠ (event.info.commit, event.job)) :
    row ∈ (record fromStr eval history event).db.rowsAt event.info.commit event.job ↔
      row ∈ jobData fromStr history.db.nextRowid (eval event.info.commit event.job) (collect event.baseJobs) := by
  rw [mem_rowsAt, mem_record_jobs linked]
  constructor
  · rintro ⟨either, jobset, member, rowid, same⟩
    obtain member | added := mem_snoc.mp member
    · exact absurd same (free jobset member)
    · cases added
      obtain stored | added := either
      · obtain ⟨jobset, member, rowid'⟩ := linked.rows row stored
        have older := rowid_lt_nextRowid member
        exact absurd (rowid.trans rowid'.symm) (by simp only; omega)
      · exact added
  · intro added
    exact ⟨.inr added, _, List.mem_append_right _ (List.mem_singleton.mpr rfl), (mem_jobData.mp added).1.symm, rfl⟩

theorem Linked.record (linked : history.Linked) : (record fromStr eval history event).Linked where
  rows row member := by
    obtain stored | added := (mem_record_jobs linked).mp member
    · obtain ⟨jobset, member, rowid⟩ := linked.rows row stored
      exact ⟨jobset, List.mem_append_left _ member, rowid⟩
    · exact ⟨_, List.mem_append_right _ (List.mem_singleton.mpr rfl), (mem_jobData.mp added).1.symm⟩
  jobsets jobset member := by
    obtain stored | rfl := mem_snoc.mp member
    · obtain ⟨info, recorded, commit⟩ := linked.jobsets jobset stored
      exact ⟨info, List.mem_append_left _ recorded, commit⟩
    · exact ⟨event.info, List.mem_append_right _ (List.mem_singleton.mpr rfl), rfl⟩
  recorded info job member := by
    obtain earlier | now := mem_snoc.mp member
    · obtain ⟨jobset, stored, same⟩ := linked.recorded info job earlier
      exact ⟨jobset, List.mem_append_left _ stored, same⟩
    · cases now
      exact ⟨_, List.mem_append_right _ (List.mem_singleton.mpr rfl), rfl⟩

theorem jobDifference_iff {baseJobs base : List (String × DrvId)} {difference : JobDifference}
    (subset : ∀ other ∈ baseJobs, other ∈ base) (covers : Covers baseJobs base pair) :
    jobDifference (collect baseJobs) pair.1 pair.2 = some difference ↔ difference.IsRight base pair := by
  obtain ⟨attr, drvId⟩ := pair
  rw [jobDifference]
  cases found : collect baseJobs attr with
  | none =>
    -- no row, so the base does not have the attribute either
    have absent : ∀ other ∈ base, other.1 ≠ attr := by
      intro other member same
      obtain ⟨⟨name, last⟩, stored, rfl⟩ := (covers ⟨other, member, same⟩).1
      obtain ⟨last, collected⟩ := collect_of_mem stored
      exact absurd (found.symm.trans collected) (by simp)
    cases difference with
    | new => exact iff_of_true rfl absent
    | changed =>
      refine iff_of_false (by simp) fun right => ?_
      obtain ⟨⟨other, member, same⟩, -⟩ := right
      exact absent other member same
    | removed => exact iff_of_false (by simp) id
  | some last =>
    have stored := mem_of_collect found
    have known : ∃ other ∈ base, other.1 = attr := ⟨(attr, last), subset _ stored, rfl⟩
    have same : last = drvId ↔ (attr, drvId) ∈ base := by
      constructor
      · rintro rfl
        exact subset _ stored
      · intro member
        exact (Prod.mk.inj ((covers known).2 member _ stored rfl)).2
    obtain ⟨other, member, named⟩ := known
    cases difference with
    | new => exact iff_of_false (by dsimp only; split <;> simp) fun right => right other member named
    | changed =>
      dsimp only [JobDifference.IsRight]
      rw [← same]
      split
      · rename_i equal
        exact iff_of_false (by simp) fun right => right.2 equal
      · rename_i differs
        exact iff_of_true rfl ⟨⟨other, member, named⟩, differs⟩
    | removed => exact iff_of_false (by dsimp only; split <;> simp) id

omit [DecidableEq DrvId] in
theorem Correct.subset (correct : Correct fromStr eval readers history) (linked : history.Linked)
    (stored : pair ∈ history.storedBase info job) : pair ∈ evaluatedBase fromStr eval info job := by
  rw [storedBase] at stored
  rw [evaluatedBase]
  split at stored
  · obtain ⟨row, member, rfl⟩ := List.mem_map.mp stored
    obtain ⟨-, jobset, present, -, same⟩ := mem_rowsAt.mp member
    obtain ⟨rfl, rfl⟩ := Prod.mk.inj same
    obtain ⟨recorder, recorded, commit⟩ := linked.jobsets jobset present
    have exact := (correct recorder jobset.job recorded).1 (row.name, row.drvId) row.difference
    rw [commit] at exact
    exact (exact.mp ⟨row, member, rfl, rfl⟩).1
  · cases stored

theorem exactRows_record (linked : history.Linked)
    (listed : event.baseJobs.Perm (history.storedBase event.info event.job))
    (free : ∀ jobset ∈ history.db.jobsets, (jobset.sha, jobset.job) ≠ (event.info.commit, event.job))
    (subset : ∀ other ∈ history.storedBase event.info event.job, other ∈ evaluatedBase fromStr eval event.info event.job)
    (covers : ∀ pair ∈ evaluated fromStr (eval event.info.commit event.job),
      Covers (history.storedBase event.info event.job) (evaluatedBase fromStr eval event.info event.job) pair) :
    ExactRows fromStr eval (record fromStr eval history event).db event.info event.job := by
  have right : ∀ pair ∈ evaluated fromStr (eval event.info.commit event.job), ∀ difference,
      jobDifference (collect event.baseJobs) pair.1 pair.2 = some difference ↔
        difference.IsRight (evaluatedBase fromStr eval event.info event.job) pair := by
    intro pair member difference
    refine jobDifference_iff (fun other stored => subset other (listed.mem_iff.mp stored)) ?_
    have covers := covers pair member
    simpa only [Covers, listed.mem_iff] using covers
  intro pair difference
  constructor
  · rintro ⟨row, member, rfl, rfl⟩
    obtain ⟨-, evaluated, compared⟩ := mem_jobData.mp ((mem_rowsAt_record linked free).mp member)
    exact ⟨evaluated, (right _ evaluated _).mp compared⟩
  · rintro ⟨evaluated, isRight⟩
    refine ⟨⟨history.db.nextRowid, pair.2, pair.1, difference⟩, (mem_rowsAt_record linked free).mpr ?_, rfl, rfl⟩
    exact mem_jobData.mpr ⟨rfl, evaluated, (right _ evaluated _).mpr isRight⟩

theorem requiredRows_record (linked : history.Linked)
    (listed : event.baseJobs.Perm (history.storedBase event.info event.job))
    (free : ∀ jobset ∈ history.db.jobsets, (jobset.sha, jobset.job) ≠ (event.info.commit, event.job))
    (shown : ∀ channel ∈ readers event.info.commit, channel.owner = event.info.owner →
      channel.repo = event.info.repoName → ∀ pair ∈ evaluated fromStr (eval event.info.commit event.job),
        pair.1 ∈ channel.required → ∃ other ∈ evaluated fromStr (eval event.info.commit event.job),
          other.1 = pair.1 ∧ other ∉ history.storedBase event.info event.job) :
    RequiredRows fromStr eval readers (record fromStr eval history event).db event.info event.job := by
  intro channel reader owner repo pair member required
  obtain ⟨⟨attr, drvId⟩, evaluated, rfl, unstored⟩ := shown channel reader owner repo pair member required
  have compared : ∃ difference, jobDifference (collect event.baseJobs) pair.1 drvId = some difference := by
    rw [jobDifference]
    cases found : collect event.baseJobs pair.1 with
    | none => exact ⟨_, rfl⟩
    | some last =>
      have differs : last ≠ drvId := by
        rintro rfl
        exact unstored (listed.mem_iff.mp (mem_of_collect found))
      exact ⟨.changed, if_neg differs⟩
  obtain ⟨difference, compared⟩ := compared
  refine ⟨⟨history.db.nextRowid, drvId, pair.1, difference⟩, (mem_rowsAt_record linked free).mpr ?_, rfl⟩
  exact mem_jobData.mpr ⟨rfl, evaluated, compared⟩

theorem Correct.frame (correct : Correct fromStr eval readers history) (linked : history.Linked)
    (free : ∀ jobset ∈ history.db.jobsets, (jobset.sha, jobset.job) ≠ (event.info.commit, event.job))
    (member : (info, job) ∈ history.recorded) :
    ExactRows fromStr eval (record fromStr eval history event).db info job ∧
      RequiredRows fromStr eval readers (record fromStr eval history event).db info job := by
  obtain ⟨jobset, stored, same⟩ := linked.recorded info job member
  have other : (event.info.commit, event.job) ≠ (info.commit, job) := fun equal => free jobset stored (same.trans equal.symm)
  have rows : ∀ row, row ∈ (record fromStr eval history event).db.rowsAt info.commit job ↔
      row ∈ history.db.rowsAt info.commit job := fun row => mem_rowsAt_record_of_ne linked other
  simpa only [ExactRows, RequiredRows, rows] using correct info job member

theorem step_correct (correct : Correct fromStr eval readers history) (linked : history.Linked)
    (complete : Complete fromStr eval readers history event) (taken : step fromStr eval history event = some next) :
    Correct fromStr eval readers next ∧ next.Linked := by
  obtain rfl | ⟨listed, free, rfl⟩ := step_cases taken
  · exact ⟨correct, linked⟩
  · refine ⟨fun info job member => ?_, linked.record⟩
    obtain ⟨covers, shown⟩ := complete free
    obtain earlier | now := mem_snoc.mp member
    · exact correct.frame linked free earlier
    · cases now
      exact ⟨exactRows_record linked listed free (fun other stored => correct.subset linked stored) covers,
        requiredRows_record linked listed free shown⟩

/-- If every base that is compared with is covered by its rows, the recorded
differences are those of the full evaluations, and channels see what they need. -/
theorem run_correct (buildState : DrvId → DrvBuildState) (fromStr : String → Option DrvId)
    (eval : String → String → List NixEvalDrv) (readers : String → List ChannelConfig)
    {events : List (JobEvent DrvId)} {final : JobHistory DrvId}
    (run : Run (step fromStr eval) (Complete fromStr eval readers) (start buildState) events final) :
    Correct fromStr eval readers final := by
  have kept : Correct fromStr eval readers final ∧ final.Linked := by
    refine run.invariant ?_ fun history event next holds complete taken =>
      step_correct holds.1 holds.2 complete taken
    refine ⟨fun info job member => absurd member List.not_mem_nil, ?_, ?_, ?_⟩
    · exact List.forall_mem_nil _
    · exact List.forall_mem_nil _
    · exact fun info job member => absurd member List.not_mem_nil
  exact kept.1

/-- A base, a pull request that builds on it and one that builds on that; the
last two evaluate `hello` as the base does. -/
def chain : List (JobEvent String) :=
  [⟨⟨"c0", none, "ekala", "corepkgs"⟩, "stable", []⟩,
    ⟨⟨"c1", some "c0", "ekala", "corepkgs"⟩, "stable", [("hello", "hello.drv")]⟩,
    ⟨⟨"c2", some "c1", "ekala", "corepkgs"⟩, "stable", [("curl", "curl-1.drv")]⟩]

def chainEval (commit _job : String) : List NixEvalDrv :=
  if commit = "c0" then [⟨"hello", "hello.drv"⟩]
  else if commit = "c1" then [⟨"hello", "hello.drv"⟩, ⟨"curl", "curl-1.drv"⟩]
  else [⟨"hello", "hello.drv"⟩, ⟨"curl", "curl-2.drv"⟩]

def chainReaders (commit : String) : List ChannelConfig :=
  if commit = "c0" then [⟨.gitHub, "ekala", "corepkgs", "stable", "master", "release", ["hello"], [], false⟩] else []

/-- The first two commits meet the condition. -/
theorem chain_correct : ∃ final, Run (step some chainEval) (Complete some chainEval chainReaders)
    (start fun _ => .queued) (chain.take 2) final ∧ Correct some chainEval chainReaders final := by
  refine exists_run_of_checkRun_imp (p := fun final => final.recorded.length = 2) (by decide) fun final run _ => ?_
  exact run_correct _ _ _ _ run

/-- The second commit left no row of `hello`, so the third one takes it for new. -/
theorem chain_not_correct : ¬ ∀ (buildState : String → DrvBuildState) (fromStr : String → Option String)
    (eval : String → String → List NixEvalDrv) (readers : String → List ChannelConfig)
    (events : List (JobEvent String)) (final : JobHistory String),
    AnyRun (step fromStr eval) (start buildState) events final → Correct fromStr eval readers final := by
  intro always
  obtain ⟨final, run, recorded, row⟩ : ∃ final, AnyRun (step some chainEval) (start fun _ => .queued) chain final ∧
      (⟨"c2", some "c1", "ekala", "corepkgs"⟩, "stable") ∈ final.recorded ∧
      ∃ row ∈ final.db.rowsAt "c2" "stable", (row.name, row.drvId) = ("hello", "hello.drv") ∧ row.difference = .new :=
    exists_run_of_exec (by decide)
  have exact := (always _ _ _ chainReaders _ _ run _ _ recorded).1 ("hello", "hello.drv") .new
  have right := (exact.mp row).2
  exact right ("hello", "hello.drv") (by decide) rfl

end JobHistory

end EkaCI
