import EkaCI.Channels.Evaluator

/-! The states that a promotion is decided on. They are read from the job rows of
all jobsets of the commit into a map by name, so of several rows of one name only
the last one counts. -/

namespace EkaCI

open Lib

variable {DrvId : Type}

namespace JobDatabase

/-- The rows that the query selects. -/
def snapshotRows (db : JobDatabase DrvId) (owner repo sha : String) (jobNames : List String) :
    List (String × DrvBuildState) :=
  ((db.jobsOf owner repo sha).filter fun job => job.name ∈ jobNames).map fun job => (job.name, db.buildState job.drvId)

/-- The query has no order, so its rows come in any. -/
def SnapshotJobStatesForSha (db : JobDatabase DrvId) (owner repo sha : String) (jobNames : List String)
    (jobStates : JobStates) : Prop :=
  ∃ rows, rows.Perm (db.snapshotRows owner repo sha jobNames) ∧ jobStates = collect rows

def SnapshotJobStates (db : JobDatabase DrvId) (channel : ChannelConfig) (sha : String) (jobStates : JobStates) : Prop :=
  db.SnapshotJobStatesForSha channel.owner channel.repo sha (channel.required ++ channel.packages) jobStates

/-- The snapshot that is made when the rows come in the order of the table. -/
def snapshotJobStates (db : JobDatabase DrvId) (channel : ChannelConfig) (sha : String) : JobStates :=
  collect (db.snapshotRows channel.owner channel.repo sha (channel.required ++ channel.packages))

/-- The job rows of a name at a commit of the channel. -/
def namedJobs (db : JobDatabase DrvId) (channel : ChannelConfig) (sha name : String) : List (Job DrvId) :=
  (db.jobsOf channel.owner channel.repo sha).filter fun job => job.name = name

def succeeded (db : JobDatabase DrvId) (job : Job DrvId) : Bool := db.buildState job.drvId = .completed .success

def finished (db : JobDatabase DrvId) (job : Job DrvId) : Bool := (db.buildState job.drvId).isTerminal

/-- All rows count: the required names have rows and these have succeeded, and
the rows of the other names are finished. -/
def RequiredMet (db : JobDatabase DrvId) (channel : ChannelConfig) (sha : String) : Prop :=
  (∀ name ∈ channel.required, db.namedJobs channel sha name ≠ [] ∧
    ∀ job ∈ db.namedJobs channel sha name, db.succeeded job) ∧
  ∀ name ∈ channel.packages, ∀ job ∈ db.namedJobs channel sha name, db.finished job

variable {db : JobDatabase DrvId} {channel : ChannelConfig} {sha : String} {jobStates : JobStates}
variable {name : String} {state : DrvBuildState} {job : Job DrvId}

theorem mem_snapshotRows :
    (name, state) ∈ db.snapshotRows channel.owner channel.repo sha (channel.required ++ channel.packages) ↔
      name ∈ channel.required ++ channel.packages ∧
        ∃ job ∈ db.namedJobs channel sha name, db.buildState job.drvId = state := by
  simp only [snapshotRows, namedJobs, List.mem_map, List.mem_filter, decide_eq_true_eq, Prod.mk.injEq]
  constructor
  · rintro ⟨job, ⟨member, watched⟩, rfl, rfl⟩
    exact ⟨watched, job, ⟨member, rfl⟩, rfl⟩
  · rintro ⟨watched, job, ⟨member, rfl⟩, rfl⟩
    exact ⟨job, ⟨member, watched⟩, rfl, rfl⟩

theorem SnapshotJobStates.row (snapshot : db.SnapshotJobStates channel sha jobStates)
    (found : jobStates name = some state) :
    ∃ job ∈ db.namedJobs channel sha name, db.buildState job.drvId = state := by
  obtain ⟨rows, listed, rfl⟩ := snapshot
  exact (mem_snapshotRows.mp (listed.mem_iff.mp (mem_of_collect found))).2

theorem exists_snapshot (pick : String × DrvBuildState → Bool) : ∃ jobStates,
    db.SnapshotJobStates channel sha jobStates ∧
      ∀ name ∈ channel.required ++ channel.packages, ∀ job ∈ db.namedJobs channel sha name,
        pick (name, db.buildState job.drvId) = true → ∃ state, jobStates name = some state ∧ pick (name, state) = true := by
  let rows := db.snapshotRows channel.owner channel.repo sha (channel.required ++ channel.packages)
  let others := rows.filter fun row => !pick row
  have listed : (others ++ rows.filter pick).Perm rows :=
    (List.perm_append_comm).trans (List.filter_append_perm pick rows)
  refine ⟨collect (others ++ rows.filter pick), ⟨_, listed, rfl⟩, fun name watched job member picked => ?_⟩
  have row : (name, db.buildState job.drvId) ∈ rows.filter pick :=
    List.mem_filter.mpr ⟨mem_snapshotRows.mpr ⟨watched, job, member, rfl⟩, picked⟩
  obtain ⟨state, found⟩ := collect_of_mem row
  refine ⟨state, ?_, (List.mem_filter.mp (mem_of_collect found)).2⟩
  rw [collect_append, found]
  rfl

/-- A row that serves its name: it has succeeded where the name is required, and
is finished where the channel lists it among the packages. -/
def good (channel : ChannelConfig) (row : String × DrvBuildState) : Bool :=
  (row.1 ∉ channel.required || row.2 = .completed .success) && (row.1 ∉ channel.packages || row.2.isTerminal)

theorem good_of_succeeded (succeeded : db.succeeded job = true) :
    good channel (name, db.buildState job.drvId) = true := by
  simp [good, of_decide_eq_true succeeded, DrvBuildState.isTerminal]

theorem good_of_finished (optional : name ∉ channel.required) (finished : db.finished job = true) :
    good channel (name, db.buildState job.drvId) = true := by
  simp only [good, Bool.and_eq_true, Bool.or_eq_true, decide_eq_true_eq]
  exact ⟨.inl optional, .inr finished⟩

theorem exists_ready
    (required : ∀ name ∈ channel.required, ∃ job ∈ db.namedJobs channel sha name, db.succeeded job = true)
    (packages : ∀ name ∈ channel.packages, ∃ job ∈ db.namedJobs channel sha name, db.finished job = true) :
    ∃ jobStates, db.SnapshotJobStates channel sha jobStates ∧ (evaluatePromotion channel jobStates).isReady = true := by
  obtain ⟨jobStates, snapshot, shown⟩ := @exists_snapshot _ db channel sha (good channel)
  have serves : ∀ name ∈ channel.required ++ channel.packages,
      ∃ job ∈ db.namedJobs channel sha name, good channel (name, db.buildState job.drvId) = true := by
    intro name member
    by_cases need : name ∈ channel.required
    · obtain ⟨job, named, succeeded⟩ := required name need
      exact ⟨job, named, good_of_succeeded succeeded⟩
    · obtain ⟨job, named, done⟩ := packages name ((List.mem_append.mp member).resolve_left need)
      exact ⟨job, named, good_of_finished need done⟩
  have shows : ∀ name ∈ channel.required ++ channel.packages,
      ∃ state, jobStates name = some state ∧ good channel (name, state) = true := by
    intro name member
    obtain ⟨job, named, serves⟩ := serves name member
    exact shown name member job named serves
  refine ⟨jobStates, snapshot, isReady_iff.mpr ⟨fun name member => ?_, fun name member => ?_⟩⟩
  · obtain ⟨state, found, fine⟩ := shows name (List.mem_append_left _ member)
    rw [found]
    simpa [good, member] using (Bool.and_eq_true_iff.mp fine).1
  · obtain ⟨state, found, fine⟩ := shows name (List.mem_append_right _ member)
    rw [Evaluator.isFinished, found]
    simpa [good, member] using (Bool.and_eq_true_iff.mp fine).2

theorem SnapshotJobStates.required_row (snapshot : db.SnapshotJobStates channel sha jobStates)
    (ready : (evaluatePromotion channel jobStates).isReady = true) (member : name ∈ channel.required) :
    ∃ job ∈ db.namedJobs channel sha name, db.succeeded job = true := by
  obtain ⟨job, named, state⟩ := snapshot.row ((isReady_iff.mp ready).1 name member)
  exact ⟨job, named, decide_eq_true state⟩

theorem SnapshotJobStates.packages_row (snapshot : db.SnapshotJobStates channel sha jobStates)
    (ready : (evaluatePromotion channel jobStates).isReady = true) (member : name ∈ channel.packages) :
    ∃ job ∈ db.namedJobs channel sha name, db.finished job = true := by
  have done := (isReady_iff.mp ready).2 name member
  rw [Evaluator.isFinished, Option.any_eq_true] at done
  obtain ⟨state, found, terminal⟩ := done
  obtain ⟨job, named, rfl⟩ := snapshot.row found
  exact ⟨job, named, terminal⟩

/-- The decision is sound at a commit exactly if some name has no good row, or if
all rows are good: among rows that differ, the one that counts is left to chance. -/
theorem ready_requiredMet_iff (db : JobDatabase DrvId) (channel : ChannelConfig) (sha : String) :
    (∀ jobStates, db.SnapshotJobStates channel sha jobStates →
      (evaluatePromotion channel jobStates).isReady = true → db.RequiredMet channel sha) ↔
    (∃ name ∈ channel.required, ∀ job ∈ db.namedJobs channel sha name, db.succeeded job = false) ∨
    (∃ name ∈ channel.packages, ∀ job ∈ db.namedJobs channel sha name, db.finished job = false) ∨
    (∀ name ∈ channel.required, ∀ job ∈ db.namedJobs channel sha name, db.succeeded job = true) ∧
      ∀ name ∈ channel.packages, ∀ job ∈ db.namedJobs channel sha name, db.finished job = true := by
  constructor
  · intro sound
    by_contra bad
    obtain ⟨required, bad⟩ := not_or.mp bad
    obtain ⟨packages, bad⟩ := not_or.mp bad
    push Not at required packages
    simp only [ne_eq, Bool.not_eq_false] at required packages
    obtain ⟨jobStates, snapshot, ready⟩ := exists_ready required packages
    have met := sound jobStates snapshot ready
    exact bad ⟨fun name member => (met.1 name member).2, met.2⟩
  · rintro (⟨name, member, none⟩ | ⟨name, member, none⟩ | ⟨required, packages⟩) jobStates snapshot ready
    · obtain ⟨job, named, succeeded⟩ := snapshot.required_row ready member
      exact absurd succeeded (by simp [none job named])
    · obtain ⟨job, named, finished⟩ := snapshot.packages_row ready member
      exact absurd finished (by simp [none job named])
    · refine ⟨fun name member => ⟨?_, required name member⟩, packages⟩
      obtain ⟨job, named, -⟩ := snapshot.required_row ready member
      exact List.ne_nil_of_mem named

/-- A commit whose two jobsets both evaluate `hello`, of which one has failed. -/
def twoHellos : JobDatabase Nat where
  jobsets := [⟨1, "c0ffee", "stable", "ekala", "corepkgs"⟩, ⟨2, "c0ffee", "full", "ekala", "corepkgs"⟩]
  jobs := [⟨1, 10, "hello", .new⟩, ⟨2, 20, "hello", .new⟩]
  buildState drvId := .completed (if drvId = 10 then .failure else .success)

def helloChannel : ChannelConfig :=
  ⟨.gitHub, "ekala", "corepkgs", "stable", "master", "release", ["hello"], [], false⟩

/-- The failed row comes first, so the other one overwrites it. -/
theorem twoHellos_not_requiredMet : ¬ ∀ (db : JobDatabase Nat) (channel : ChannelConfig) (sha : String) (jobStates : JobStates),
    db.SnapshotJobStates channel sha jobStates → (evaluatePromotion channel jobStates).isReady = true →
      db.RequiredMet channel sha := by
  intro sound
  have met := sound twoHellos helloChannel "c0ffee" _ ⟨_, .refl _, rfl⟩ (by decide)
  have succeeded := (met.1 "hello" (by decide)).2 ⟨1, 10, "hello", .new⟩ (by decide)
  exact absurd succeeded (by decide)

end JobDatabase

end EkaCI
