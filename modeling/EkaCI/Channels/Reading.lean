import EkaCI.Channels.Registry
import EkaCI.Channels.Service

/-! What a channel reads at a commit, against what was recorded there. Events are routed by
the forge and by the owner regardless of case; the query for the states of the jobs names no
forge and compares the owner as it is spelled. The jobsets of the three forges are numbered
in tables of their own, but their jobs are all rows of one table. -/

namespace EkaCI

open Lib

variable {DrvId : Type}

/-- A row of `GitHubJobSets`, `GitLabJobSets` or `GiteaJobSets`. -/
structure RecordedJobSet where
  forge : ChannelForge
  jobset : JobSet

/-- A row of `Job`, with the forge whose jobset it was recorded for, which no column says. -/
structure ForgeJob (DrvId : Type) where
  forge : ChannelForge
  job : Job DrvId

structure ForgeJobs (DrvId : Type) where
  jobsets : List RecordedJobSet
  jobs : List (ForgeJob DrvId)
  buildState : DrvId → DrvBuildState

/-- The tables that the query joins: a job is found under the GitHub jobset of its number. -/
def ForgeJobs.joined (db : ForgeJobs DrvId) : JobDatabase DrvId where
  jobsets := (db.jobsets.filter (·.forge = .gitHub)).map RecordedJobSet.jobset
  jobs := db.jobs.map ForgeJob.job
  buildState := db.buildState

/-- A push to a branch, or a jobset that has concluded. -/
inductive ChannelEvent where
  | push (forge : ChannelForge) (owner repo branch sha : String)
  | jobsetComplete (notice : JobsetNotice)

namespace ChannelEvent

/-- The commit, as the event spells it. -/
def commit : ChannelEvent → JobsetNotice
  | .push forge owner repo _ sha => ⟨forge, owner, repo, sha⟩
  | .jobsetComplete notice => notice

def selects (channels : ChannelRegistry) : ChannelEvent → List ChannelConfig
  | .push forge owner repo branch _ => channels.matchPushChannels forge owner repo branch
  | .jobsetComplete notice => (channels.map (·.2)).filter fun channel => channel.watches notice

end ChannelEvent

def ChannelConfig.watched (channel : ChannelConfig) : List String := channel.required ++ channel.packages

namespace ForgeJobs

/-- The job is a row of a jobset of the commit. -/
def RecordedFor (db : ForgeJobs DrvId) (commit : JobsetNotice) (row : ForgeJob DrvId) : Prop :=
  row ∈ db.jobs ∧ row.forge = commit.forge ∧ ∃ stored ∈ db.jobsets, stored.forge = commit.forge ∧
    stored.jobset.rowid = row.job.jobset ∧ stored.jobset.isOf commit.owner commit.repo commit.sha

/-- The query finds the job. -/
def FoundBy (db : ForgeJobs DrvId) (channel : ChannelConfig) (sha : String) (row : ForgeJob DrvId) : Prop :=
  row ∈ db.jobs ∧ ∃ stored ∈ db.jobsets, stored.forge = .gitHub ∧ stored.jobset.rowid = row.job.jobset ∧
    stored.jobset.isOf channel.owner channel.repo sha

/-- Two rows that say the same of a name. -/
def Alike (db : ForgeJobs DrvId) (row other : ForgeJob DrvId) : Prop :=
  row.job.name = other.job.name ∧ db.buildState row.job.drvId = db.buildState other.job.drvId

/-- Of each watched name a state is read exactly if a row was recorded, and the state is
that of such a row. -/
structure ReadsRecorded (db : ForgeJobs DrvId) (channel : ChannelConfig) (commit : JobsetNotice) : Prop where
  answered : ∀ jobStates, db.joined.SnapshotJobStates channel commit.sha jobStates → ∀ name ∈ channel.watched,
    (jobStates name).isSome ↔ ∃ row, db.RecordedFor commit row ∧ row.job.name = name
  own : ∀ jobStates, db.joined.SnapshotJobStates channel commit.sha jobStates → ∀ name ∈ channel.watched, ∀ state,
    jobStates name = some state →
      ∃ row, db.RecordedFor commit row ∧ row.job.name = name ∧ db.buildState row.job.drvId = state

/-- The commit that the query asks for: GitHub's, as the channel is configured. -/
def asked (channel : ChannelConfig) (commit : JobsetNotice) : JobsetNotice :=
  ⟨.gitHub, channel.owner, channel.repo, commit.sha⟩

/-- Another forge has recorded the row, under the number of a jobset that GitHub has for the commit. -/
def StraysInto (db : ForgeJobs DrvId) (commit : JobsetNotice) (row : ForgeJob DrvId) : Prop :=
  row ∈ db.jobs ∧ row.forge ≠ .gitHub ∧ ∃ stored ∈ db.jobsets, stored.forge = .gitHub ∧
    stored.jobset.rowid = row.job.jobset ∧ stored.jobset.isOf commit.owner commit.repo commit.sha

/-- What has strayed into the commit that the query asks for is like a row of the event's own commit;
and unless the event is one of GitHub that spells the owner as the channel does, so is what was recorded
for the commit that the query asks for, and each row of the event's commit has a namesake there. -/
structure Legible (db : ForgeJobs DrvId) (channel : ChannelConfig) (commit : JobsetNotice) : Prop where
  strays : ∀ row, db.StraysInto (asked channel commit) row → row.job.name ∈ channel.watched →
    ∃ other, db.RecordedFor commit other ∧ db.Alike row other
  others : ¬(commit.forge = .gitHub ∧ commit.owner = channel.owner) →
    ∀ row, db.RecordedFor (asked channel commit) row → row.job.name ∈ channel.watched →
      ∃ other, db.RecordedFor commit other ∧ db.Alike row other
  missed : ¬(commit.forge = .gitHub ∧ commit.owner = channel.owner) →
    ∀ row, db.RecordedFor commit row → row.job.name ∈ channel.watched →
      ∃ other, (db.RecordedFor (asked channel commit) other ∨ db.StraysInto (asked channel commit) other) ∧
        other.job.name = row.job.name

variable {db : ForgeJobs DrvId} {channel : ChannelConfig} {commit : JobsetNotice}

theorem mem_namedJobs {sha name : String} {job : Job DrvId} : job ∈ db.joined.namedJobs channel sha name ↔
    ∃ row, db.FoundBy channel sha row ∧ row.job.name = name ∧ row.job = job := by
  simp only [JobDatabase.namedJobs, JobDatabase.jobsOf, joined, List.mem_filter, List.mem_flatMap, List.mem_map,
    decide_eq_true_eq, FoundBy]
  constructor
  · rintro ⟨⟨_, ⟨row, member, rfl⟩, _, ⟨⟨stored, ⟨listed, gitHub⟩, rfl⟩, number, isOf⟩, rfl⟩, named⟩
    exact ⟨row, ⟨member, stored, listed, gitHub, number, isOf⟩, named, rfl⟩
  · rintro ⟨row, ⟨member, stored, listed, gitHub, number, isOf⟩, named, rfl⟩
    exact ⟨⟨_, ⟨row, member, rfl⟩, _, ⟨⟨stored, ⟨listed, gitHub⟩, rfl⟩, number, isOf⟩, rfl⟩, named⟩

theorem found_of_snapshot {sha name : String} {state : DrvBuildState} {jobStates : JobStates}
    (snapshot : db.joined.SnapshotJobStates channel sha jobStates) (found : jobStates name = some state) :
    ∃ row, db.FoundBy channel sha row ∧ row.job.name = name ∧ db.buildState row.job.drvId = state := by
  obtain ⟨_, member, same⟩ := snapshot.row found
  obtain ⟨row, found, named, rfl⟩ := mem_namedJobs.mp member
  exact ⟨row, found, named, same⟩

theorem exists_snapshot_of_found {sha : String} {row : ForgeJob DrvId} (found : db.FoundBy channel sha row)
    (watched : row.job.name ∈ channel.watched) : ∃ jobStates, db.joined.SnapshotJobStates channel sha jobStates ∧
      jobStates row.job.name = some (db.buildState row.job.drvId) := by
  obtain ⟨jobStates, snapshot, shown⟩ := @JobDatabase.exists_snapshot _ db.joined channel sha
    fun shown => shown = (row.job.name, db.buildState row.job.drvId)
  have member : row.job ∈ db.joined.namedJobs channel sha row.job.name := mem_namedJobs.mpr ⟨row, found, rfl, rfl⟩
  obtain ⟨state, same, picked⟩ := shown row.job.name watched row.job member (decide_eq_true rfl)
  refine ⟨jobStates, snapshot, ?_⟩
  rw [same, (Prod.mk.inj (of_decide_eq_true picked)).2]

theorem isSome_of_found {sha : String} {jobStates : JobStates} {row : ForgeJob DrvId}
    (snapshot : db.joined.SnapshotJobStates channel sha jobStates) (found : db.FoundBy channel sha row)
    (watched : row.job.name ∈ channel.watched) : (jobStates row.job.name).isSome := by
  obtain ⟨rows, listed, rfl⟩ := snapshot
  have member : (row.job.name, db.joined.buildState row.job.drvId) ∈ rows :=
    listed.mem_iff.mpr (JobDatabase.mem_snapshotRows.mpr
      ⟨watched, row.job, mem_namedJobs.mpr ⟨row, found, rfl, rfl⟩, rfl⟩)
  obtain ⟨_, same⟩ := collect_of_mem member
  exact Option.isSome_iff_exists.mpr ⟨_, same⟩

theorem readsRecorded_iff_alike : db.ReadsRecorded channel commit ↔
    (∀ row, db.FoundBy channel commit.sha row → row.job.name ∈ channel.watched →
      ∃ other, db.RecordedFor commit other ∧ db.Alike row other) ∧
    ∀ row, db.RecordedFor commit row → row.job.name ∈ channel.watched →
      ∃ other, db.FoundBy channel commit.sha other ∧ other.job.name = row.job.name := by
  constructor
  · intro reads
    constructor
    · intro row found watched
      obtain ⟨jobStates, snapshot, shown⟩ := exists_snapshot_of_found found watched
      obtain ⟨other, recorded, named, same⟩ := reads.own jobStates snapshot _ watched _ shown
      exact ⟨other, recorded, named.symm, same.symm⟩
    · intro row recorded watched
      obtain ⟨jobStates, snapshot, -⟩ := @JobDatabase.exists_snapshot _ db.joined channel commit.sha fun _ => true
      obtain ⟨_, shown⟩ := Option.isSome_iff_exists.mp
        ((reads.answered jobStates snapshot _ watched).mpr ⟨row, recorded, rfl⟩)
      obtain ⟨other, found, named, -⟩ := found_of_snapshot snapshot shown
      exact ⟨other, found, named⟩
  · rintro ⟨own, complete⟩
    have recorded : ∀ jobStates, db.joined.SnapshotJobStates channel commit.sha jobStates → ∀ name ∈ channel.watched,
        ∀ state, jobStates name = some state →
          ∃ row, db.RecordedFor commit row ∧ row.job.name = name ∧ db.buildState row.job.drvId = state := by
      intro jobStates snapshot name watched state shown
      obtain ⟨row, found, rfl, rfl⟩ := found_of_snapshot snapshot shown
      obtain ⟨other, recorded, named, same⟩ := own row found watched
      exact ⟨other, recorded, named.symm, same.symm⟩
    refine ⟨fun jobStates snapshot name watched => ⟨fun shown => ?_, ?_⟩, recorded⟩
    · obtain ⟨state, shown⟩ := Option.isSome_iff_exists.mp shown
      obtain ⟨row, recorded, named, -⟩ := recorded jobStates snapshot name watched state shown
      exact ⟨row, recorded, named⟩
    · rintro ⟨row, recorded, rfl⟩
      obtain ⟨other, found, named⟩ := complete row recorded watched
      rw [← named] at watched ⊢
      exact isSome_of_found snapshot found watched

/-- The query finds GitHub's rows for the commit that it asks for, and what has strayed into it. -/
theorem foundBy_iff {row : ForgeJob DrvId} : db.FoundBy channel commit.sha row ↔
    db.RecordedFor (asked channel commit) row ∨ db.StraysInto (asked channel commit) row := by
  rw [FoundBy, RecordedFor, StraysInto, asked]
  by_cases gitHub : row.forge = .gitHub
  · simp [gitHub]
  · simp [gitHub]

theorem readsRecorded_iff_legible (repo : channel.repo = commit.repo) :
    db.ReadsRecorded channel commit ↔ db.Legible channel commit := by
  rw [readsRecorded_iff_alike]
  simp only [foundBy_iff]
  constructor
  · rintro ⟨own, complete⟩
    exact ⟨fun row strays => own row (.inr strays), fun _ row recorded => own row (.inl recorded), fun _ => complete⟩
  · rintro ⟨strays, others, missed⟩
    by_cases spelled : commit.forge = .gitHub ∧ commit.owner = channel.owner
    · have same : asked channel commit = commit := by
        obtain ⟨gitHub, owner⟩ := spelled
        rw [asked, repo, ← owner, ← gitHub]
      rw [same] at strays ⊢
      refine ⟨fun row found watched => found.elim (fun recorded => ⟨row, recorded, rfl, rfl⟩) fun stray =>
        strays row stray watched, fun row recorded _ => ⟨row, .inl recorded, rfl⟩⟩
    · exact ⟨fun row found watched => found.elim (fun recorded => others spelled row recorded watched) fun stray =>
        strays row stray watched, missed spelled⟩

end ForgeJobs

theorem ChannelEvent.repo_of_selects {channels : ChannelRegistry} {event : ChannelEvent} {channel : ChannelConfig}
    (selected : channel ∈ event.selects channels) : channel.repo = event.commit.repo := by
  cases event with
  | push forge owner repo branch sha => exact (ChannelRegistry.mem_matchPushChannels.mp selected).2.2.2.1
  | jobsetComplete notice => exact (of_decide_eq_true (List.mem_filter.mp selected).2).2.2

namespace ForgeJobs

/-- The channels that an event is routed to read what was recorded for it exactly where the
rows they find are legible. -/
theorem readsRecorded_iff (db : ForgeJobs DrvId) (channels : ChannelRegistry) (event : ChannelEvent) :
    (∀ channel ∈ event.selects channels, db.ReadsRecorded channel event.commit) ↔
      ∀ channel ∈ event.selects channels, db.Legible channel event.commit := by
  refine forall₂_congr fun channel selected => ?_
  exact readsRecorded_iff_legible (ChannelEvent.repo_of_selects selected)

/-- A jobset of `ekala`, whose only job has succeeded. -/
def ekalaJobs : ForgeJobs Nat where
  jobsets := [⟨.gitHub, 1, "c0ffee", "stable", "ekala", "corepkgs"⟩]
  jobs := [⟨.gitHub, 1, 10, "hello", .new⟩]
  buildState _ := .completed .success

def capitalChannel : ChannelConfig :=
  ⟨.gitHub, "Ekala", "corepkgs", "stable", "master", "release", ["hello"], [], false⟩

/-- The channel is configured for `Ekala`, to which GitHub's events are routed. -/
theorem capitalOwner_not_readsRecorded :
    ¬ ∀ channel ∈ (ChannelEvent.push .gitHub "ekala" "corepkgs" "master" "c0ffee").selects
        [("github/Ekala/corepkgs/stable", capitalChannel)],
      ekalaJobs.ReadsRecorded channel ⟨.gitHub, "ekala", "corepkgs", "c0ffee"⟩ := by
  intro reads
  obtain ⟨-, complete⟩ := readsRecorded_iff_alike.mp (reads capitalChannel (by decide))
  obtain ⟨other, ⟨-, stored, listed, -, -, owner, -⟩, -⟩ := complete ⟨.gitHub, 1, 10, "hello", .new⟩
    ⟨List.mem_singleton.mpr rfl, rfl, _, List.mem_singleton.mpr rfl, rfl, rfl, rfl, rfl, rfl⟩ (by decide)
  rw [List.mem_singleton.mp listed] at owner
  exact absurd owner (by decide)

end ForgeJobs

end EkaCI
