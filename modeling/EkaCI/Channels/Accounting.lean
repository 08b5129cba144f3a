import EkaCI.Channels.Exclusion

/-! Where a pushed commit is to be found. It moves between the queue, the journal,
the rows and the pending commits, and of these only the journal and the rows outlast
the process. -/

namespace EkaCI

open Lib

variable {DrvId : Type}

namespace ChannelService

def InQueue (service : ChannelService DrvId) (key : String × String) : Prop :=
  ∃ task ∈ service.queue, task.key? = some key

def InJournal (service : ChannelService DrvId) (key : String × String) : Prop :=
  ∃ entry ∈ service.journal, entry.2.key? = some key

def InRows (service : ChannelService DrvId) (key : String × String) : Prop :=
  ∃ row ∈ service.promotions.rows, row.isFor key.1 key.2

/-- The commit of a channel is in a task, pending, or in a row of any status. -/
def Accounted (service : ChannelService DrvId) (key : String × String) : Prop :=
  service.InQueue key ∨ service.InJournal key ∨ service.pending key.1 = some key.2 ∨ service.InRows key

/-- It would be found again after a crash. -/
def Stored (service : ChannelService DrvId) (key : String × String) : Prop := service.InJournal key ∨ service.InRows key

/-- A replayed task that has failed and is going to be acknowledged nevertheless. -/
def failedReplay? (service : ChannelService DrvId) : Option (Nat × ChannelTask) :=
  match service.handler with
  | .running (.replay id _) task .failed => some (id, task)
  | _ => none

def withoutEntry (service : ChannelService DrvId) (id : Nat) : ChannelService DrvId :=
  { service with journal := service.journal.filter fun entry => entry.1 ≠ id }

def withoutHead (service : ChannelService DrvId) : ChannelService DrvId := { service with queue := service.queue.tail }

/-- What is only in memory is not lost: no crash while a commit that was journaled is
only queued again or pending, no task that is handled without a journal entry and no acknowledged failure
while its commit is nowhere else, and room in the queue for a drained commit. -/
def Keeps (service : ChannelService DrvId) : ChannelAction DrvId → Prop
  | .crash =>
    ∀ key ∈ service.journaled, service.InQueue key ∨ service.pending key.1 = some key.2 → service.Stored key
  | .receive persisted =>
    persisted = true ∨
      ∀ task ∈ service.queue.head?, ∀ key ∈ task.key?, key ∈ service.journaled → service.withoutHead.Accounted key
  | .advance answer =>
    answer = .succeeds →
      (∀ entry ∈ service.failedReplay?, ∀ key ∈ entry.2.key?, key ∈ service.journaled →
        (service.withoutEntry entry.1).Accounted key) ∧
      ∀ key ∈ service.draining?, key ∈ service.journaled →
        service.queue.length < channelTaskBuffer ∨ service.Stored key
  | .enqueue _ | .conclude _ _ | .start _ | .next => True

section Decidable

variable (service : ChannelService DrvId) (key : String × String)

instance : Decidable (service.InQueue key) := inferInstanceAs (Decidable (∃ task ∈ service.queue, _))

instance : Decidable (service.InJournal key) := inferInstanceAs (Decidable (∃ entry ∈ service.journal, _))

instance : Decidable (service.InRows key) := inferInstanceAs (Decidable (∃ row ∈ service.promotions.rows, _))

instance : Decidable (service.Stored key) := inferInstanceAs (Decidable (_ ∨ _))

instance : Decidable (service.Accounted key) := inferInstanceAs (Decidable (_ ∨ _))

instance : (action : ChannelAction DrvId) → Decidable (service.Keeps action)
  | .crash =>
    inferInstanceAs (Decidable (∀ key ∈ service.journaled,
      service.InQueue key ∨ service.pending key.1 = some key.2 → service.Stored key))
  | .receive persisted =>
    inferInstanceAs (Decidable (persisted = true ∨
      ∀ task ∈ service.queue.head?, ∀ key ∈ task.key?, key ∈ service.journaled → service.withoutHead.Accounted key))
  | .advance answer =>
    inferInstanceAs (Decidable (answer = .succeeds →
      (∀ entry ∈ service.failedReplay?, ∀ key ∈ entry.2.key?, key ∈ service.journaled →
        (service.withoutEntry entry.1).Accounted key) ∧
      ∀ key ∈ service.draining?, key ∈ service.journaled →
        service.queue.length < channelTaskBuffer ∨ service.Stored key))
  | .enqueue _ | .conclude _ _ | .start _ | .next => inferInstanceAs (Decidable True)

end Decidable

/-- Every push that was ever journaled is accounted for. -/
def AllAccounted (service : ChannelService DrvId) : Prop := ∀ key ∈ service.journaled, service.Accounted key

variable {service next : ChannelService DrvId} {hasOctocrab : Bool} {channels : List ChannelConfig}

def EntryIs (journal : List (Nat × ChannelTask)) (id : Nat) (task : ChannelTask) : Prop :=
  ∀ entry ∈ journal, entry.1 = id → entry.2 = task

/-- The entries that the handler has the ids of. -/
def heldEntries (service : ChannelService DrvId) : List (Nat × ChannelTask) :=
  match service.handler with
  | .replaying rest => rest
  | .running (.replay id rest) task _ => (id, task) :: rest
  | .running (.dispatch (some id)) task _ => [(id, task)]
  | _ => []

/-- Ids are given once, and the handler's ids are those of its tasks. -/
structure Ordered (service : ChannelService DrvId) : Prop where
  fresh : ∀ entry ∈ service.journal, entry.1 < service.nextId
  unique : ∀ entry ∈ service.journal, EntryIs service.journal entry.1 entry.2
  held : ∀ entry ∈ service.heldEntries, EntryIs service.journal entry.1 entry.2

variable {task : ChannelTask} {answer : CallAnswer} {point point' : HandlerPoint} {origin : TaskOrigin}
  {action : ChannelAction DrvId} {key : String × String} {channel : ChannelConfig} {sha : String} {id : Nat}

theorem EntryIs.filter {journal : List (Nat × ChannelTask)} (entryIs : EntryIs journal id task)
    (q : Nat × ChannelTask → Bool) : EntryIs (journal.filter q) id task :=
  fun entry member => entryIs entry (List.mem_of_mem_filter member)

theorem Ordered.of_frame (ordered : service.Ordered) (journal : next.journal = service.journal)
    (nextId : next.nextId = service.nextId) (held : ∀ entry ∈ next.heldEntries, entry ∈ service.heldEntries) :
    next.Ordered where
  fresh := journal ▸ nextId ▸ ordered.fresh
  unique := journal ▸ ordered.unique
  held entry member := journal ▸ ordered.held entry (held entry member)

theorem Ordered.filter (ordered : service.Ordered) (q : Nat × ChannelTask → Bool)
    (journal : next.journal = service.journal.filter q) (nextId : next.nextId = service.nextId)
    (held : ∀ entry ∈ next.heldEntries, entry ∈ service.heldEntries) : next.Ordered where
  fresh entry member := by
    rw [journal] at member
    rw [nextId]
    exact ordered.fresh entry (List.mem_of_mem_filter member)
  unique entry member := by
    rw [journal] at member ⊢
    exact (ordered.unique entry (List.mem_of_mem_filter member)).filter q
  held entry member := journal ▸ (ordered.held entry (held entry member)).filter q

theorem Advances.journal_eq (advances : Advances hasOctocrab service point answer next point') :
    next.journal = service.journal ∧ next.nextId = service.nextId ∧ next.journaled = service.journaled := by
  cases advances with
  | proceeds proceeds => exact ⟨proceeds.framed.journal, proceeds.framed.nextId, proceeds.framed.journaled⟩
  | failed calls => exact ⟨rfl, rfl, rfl⟩
  | pushed ok => exact ⟨rfl, rfl, rfl⟩
  | unpushed failed => exact ⟨rfl, rfl, rfl⟩

theorem heldEntries_after (running : service.handler = .running origin task point)
    (handler : next.handler = origin.after) : ∀ entry ∈ next.heldEntries, entry ∈ service.heldEntries := by
  intro entry member
  rw [heldEntries, handler] at member
  rw [heldEntries, running]
  cases origin with
  | replay id rest => exact List.mem_cons_of_mem _ member
  | dispatch id => cases member

theorem heldEntries_running (running : service.handler = .running origin task point)
    (handler : next.handler = .running origin task point') :
    ∀ entry ∈ next.heldEntries, entry ∈ service.heldEntries := by
  intro entry member
  rw [heldEntries, handler] at member
  rw [heldEntries, running]
  cases origin with
  | replay id rest => exact member
  | dispatch id =>
    cases id with
    | none => exact member
    | some id => exact member

theorem Ordered.take (ordered : service.Ordered) (task : ChannelTask) (rest : List ChannelTask) (persisted : Bool) :
    (service.take channels task rest persisted).Ordered := by
  cases persisted with
  | false => exact ordered.of_frame rfl rfl fun entry member => absurd member List.not_mem_nil
  | true =>
    have newest : EntryIs (service.journal ++ [(service.nextId, task)]) service.nextId task := by
      intro entry member same
      obtain old | last := mem_snoc.mp member
      · exact absurd same (Nat.ne_of_lt (ordered.fresh entry old))
      · rw [last]
    refine ⟨fun entry member => ?_, fun entry member => ?_, fun entry member => ?_⟩
    · obtain old | last := mem_snoc.mp member
      · exact Nat.lt_succ_of_lt (ordered.fresh entry old)
      · rw [last]
        exact Nat.lt_succ_self _
    · obtain old | last := List.mem_append.mp member
      · intro other member same
        obtain old' | last := List.mem_append.mp member
        · exact ordered.unique entry old other old' same
        · rw [List.mem_singleton.mp last] at same
          exact absurd same (Nat.ne_of_gt (ordered.fresh entry old))
      · rw [List.mem_singleton.mp last]
        exact newest
    · rw [List.mem_singleton.mp member]
      exact newest

theorem finish_cases (origin : TaskOrigin) (completed : Bool) (answer : CallAnswer) :
    service.finish origin completed answer = { service with handler := origin.after } ∨
      answer = .succeeds ∧ ∃ id, origin.ackId completed = some id ∧
        service.finish origin completed answer = { service.withoutEntry id with handler := origin.after } := by
  rw [finish]
  split
  · rename_i id ack
    by_cases succeeds : answer = .succeeds
    · refine .inr ⟨succeeds, id, ack, ?_⟩
      rw [if_pos succeeds]
      rfl
    · refine .inl ?_
      rw [if_neg succeeds]
  · exact .inl rfl

theorem Ordered.finish (ordered : service.Ordered) (running : service.handler = .running origin task point)
    (completed : Bool) (answer : CallAnswer) : (service.finish origin completed answer).Ordered := by
  obtain same | ⟨-, id, -, same⟩ := @finish_cases _ service origin completed answer
  · rw [same]
    exact ordered.of_frame rfl rfl (heldEntries_after running rfl)
  · rw [same]
    exact ordered.filter _ rfl rfl (heldEntries_after running rfl)

theorem Steps.ordered (steps : Steps hasOctocrab channels service action next) (ordered : service.Ordered) :
    next.Ordered := by
  cases steps with
  | enqueued up room => exact ordered.of_frame rfl rfl fun _ member => member
  | concluded up => exact ordered.of_frame rfl rfl fun _ member => member
  | crashed up => exact ordered.of_frame rfl rfl fun _ member => absurd member List.not_mem_nil
  | started down => exact ⟨ordered.fresh, ordered.unique, ordered.unique⟩
  | unrecovered down => exact ordered.of_frame rfl rfl fun _ member => absurd member List.not_mem_nil
  | replayed done => exact ordered.of_frame rfl rfl fun _ member => absurd member List.not_mem_nil
  | replays head =>
    refine ordered.of_frame rfl rfl fun entry member => ?_
    rw [heldEntries, head]
    exact member
  | @received task rest persisted idle head => exact ordered.take task rest persisted
  | @finished origin task point answer running ended => exact ordered.finish running _ answer
  | advanced running advances =>
    obtain ⟨journal, nextId, -⟩ := advances.journal_eq
    exact ordered.of_frame journal nextId (heldEntries_running running rfl)

/-- The commit is in a row or pending. -/
def Touched (service : ChannelService DrvId) (key : String × String) : Prop :=
  service.pending key.1 = some key.2 ∨ service.InRows key

/-- Where the handling of a push has put the commit. -/
def Handled (service : ChannelService DrvId) (channel : ChannelConfig) (sha : String) : HandlerPoint → Prop
  | .lookup channel' sha' | .coalesce channel' sha' | .start channel' sha' | .skip channel' sha' _ =>
    channel' = channel ∧ sha' = sha
  | .decide _ _ rest | .push _ _ _ _ rest | .finalise _ _ _ rest | .resend _ _ _ rest =>
    rest = [] ∧ service.InRows (channel.channelId, sha)
  | .visit _ rest => rest = [] ∧ service.Touched (channel.channelId, sha)
  | .failed => True

def HandledSoFar (service : ChannelService DrvId) : Prop :=
  ∀ origin channel sha point, service.handler = .running origin (.evaluatePush channel sha) point →
    service.Handled channel sha point

theorem Proceeds.inRows (proceeds : Proceeds service point next point') (stored : service.InRows key) :
    next.InRows key := by
  obtain ⟨row, member, isFor⟩ := stored
  have finalised : ∀ channelId sha verdict, ∃ row ∈ (service.promotions.finaliseEvaluation channelId sha verdict).rows,
      row.isFor key.1 key.2 := by
    intro channelId sha verdict
    refine ⟨_, mem_finalise.mpr ⟨row, member, rfl⟩, ?_⟩
    rw [ChannelPromotionRow.isFor, Promotions.finaliseRow_channelId, Promotions.finaliseRow_trackingSha]
    exact isFor
  cases proceeds with
  | skipped => exact ⟨row, List.mem_append_left _ member, isFor⟩
  | @opened channel sha promotions inserted =>
    have added := Promotions.rows_of_insertEvaluating inserted
    exact ⟨row, added ▸ List.mem_append_left _ member, isFor⟩
  | concluded none => exact finalised _ _ _
  | drained waits room => exact finalised _ _ _
  | stuck waits full => exact finalised _ _ _
  | _ => exact ⟨row, member, isFor⟩

theorem Proceeds.handled (proceeds : Proceeds service point next point') (handled : service.Handled channel sha point) :
    next.Handled channel sha point' := by
  have kept := @Proceeds.inRows _ _ _ _ _ (channel.channelId, sha) proceeds
  cases proceeds with
  | decided known =>
    obtain ⟨rfl, rfl⟩ := handled
    obtain ⟨row, member, isFor, -⟩ := Promotions.exists_decided known
    exact ⟨rfl, .inr ⟨row, member, isFor⟩⟩
  | undecided unknown => exact handled
  | duplicate inFlight same =>
    obtain ⟨rfl, rfl⟩ := handled
    obtain rfl | waits := same
    · obtain ⟨row, member, isFor, -⟩ := inFlightSha_eq_some.mp inFlight
      exact ⟨rfl, .inr ⟨row, member, isFor⟩⟩
    · exact ⟨rfl, .inl waits⟩
  | deferred inFlight other free =>
    obtain ⟨rfl, rfl⟩ := handled
    exact ⟨rfl, .inl (Function.update_self ..)⟩
  | superseding inFlight other waits unlike => exact handled
  | fresh none => exact handled
  | skipped =>
    obtain ⟨rfl, rfl⟩ := handled
    exact ⟨rfl, .inl (Function.update_self ..)⟩
  | @opened channel' sha' promotions inserted =>
    obtain ⟨rfl, rfl⟩ := handled
    have added := Promotions.rows_of_insertEvaluating inserted
    exact ⟨rfl, _, added ▸ List.mem_append_right _ List.mem_cons_self, rfl, rfl⟩
  | occupied refused => trivial
  | ready decision => exact handled
  | blocked decision => exact handled
  | waiting decision => exact ⟨handled.1, .inr handled.2⟩
  | concluded none => exact ⟨handled.1, .inr (kept handled.2)⟩
  | drained waits room => exact ⟨handled.1, .inr (kept handled.2)⟩
  | stuck waits full => exact ⟨handled.1, kept handled.2⟩
  | resent room => exact ⟨handled.1, .inr handled.2⟩
  | revisited inFlight => cases handled.1
  | passed other => cases handled.1

theorem Advances.handled (advances : Advances hasOctocrab service point answer next point')
    (handled : service.Handled channel sha point) : next.Handled channel sha point' := by
  cases advances with
  | proceeds proceeds => exact proceeds.handled handled
  | failed calls => trivial
  | pushed ok => exact handled
  | unpushed failed => trivial

theorem Proceeds.accounted_of_pending (proceeds : Proceeds service point next point')
    (fits : Fits service.promotions service.pending point) (waits : service.pending key.1 = some key.2)
    (drains : ∀ channel sha verdict rest, point = .finalise channel sha verdict rest → key.1 = channel.channelId →
      service.queue.length < channelTaskBuffer ∨ service.Stored key) : next.Accounted key := by
  have elsewhere : ∀ channel : ChannelConfig, ∀ sha, key.1 ≠ channel.channelId →
      service.setPending channel sha key.1 = some key.2 := by
    intro channel sha other
    rw [setPending, Function.update_of_ne other]
    exact waits
  have kept := @Proceeds.inRows _ _ _ _ _ key proceeds
  cases proceeds with
  | @deferred channel sha flying inFlight other free =>
    refine .inr (.inr (.inl (elsewhere channel _ fun same => ?_)))
    rw [same, free] at waits
    cases waits
  | @skipped channel sha previous =>
    by_cases same : key.1 = channel.channelId
    · rw [same, fits.1] at waits
      cases waits
      exact .inr (.inr (.inr ⟨_, List.mem_append_right _ List.mem_cons_self, same.symm, rfl⟩))
    · exact .inr (.inr (.inl (elsewhere channel _ same)))
  | @concluded channel sha verdict rest none =>
    refine .inr (.inr (.inl (elsewhere channel _ fun same => ?_)))
    rw [same, none] at waits
    cases waits
  | @drained channel sha drained verdict rest found room =>
    by_cases same : key.1 = channel.channelId
    · rw [same, found] at waits
      refine .inl ⟨_, List.mem_append_right _ List.mem_cons_self, ?_⟩
      rw [ChannelTask.key?, Option.some.inj waits, ← same]
    · exact .inr (.inr (.inl (elsewhere channel _ same)))
  | @stuck channel sha drained verdict rest found full =>
    by_cases same : key.1 = channel.channelId
    · obtain room | journal | stored := drains channel sha verdict rest rfl same
      · exact absurd room (Nat.not_lt.mpr full)
      · exact .inr (.inl journal)
      · exact .inr (.inr (.inr (kept stored)))
    · exact .inr (.inr (.inl (elsewhere channel _ same)))
  | _ => exact .inr (.inr (.inl waits))

theorem Advances.accounted (advances : Advances hasOctocrab service point answer next point')
    (running : service.handler = .running origin task point) (fits : Fits service.promotions service.pending point)
    (keeps : service.Keeps (.advance answer)) (journaled : key ∈ service.journaled)
    (accounted : service.Accounted key) : next.Accounted key := by
  cases advances with
  | proceeds proceeds =>
    obtain ⟨queued, member, same⟩ | journal | waits | stored := accounted
    · exact .inl ⟨queued, proceeds.queue_subset member, same⟩
    · refine .inr (.inl ?_)
      rw [InJournal, proceeds.framed.journal]
      exact journal
    · refine proceeds.accounted_of_pending fits waits fun channel sha verdict rest finalises same => ?_
      refine (keeps rfl).2 key ?_ journaled
      rw [draining?, running, finalises]
      simp only [← same, waits, Option.map_some, Option.mem_some_iff]
    · exact .inr (.inr (.inr (proceeds.inRows stored)))
  | failed calls => exact accounted
  | pushed ok => exact accounted
  | unpushed failed => exact accounted

theorem ackId_mem {completed : Bool} (running : service.handler = .running origin task point)
    (ack : origin.ackId completed = some id) : (id, task) ∈ service.heldEntries := by
  rw [heldEntries, running]
  cases origin with
  | replay id' rest =>
    cases ack
    exact List.mem_cons_self
  | dispatch id' =>
    rw [TaskOrigin.ackId] at ack
    split at ack
    · rw [ack]
      exact List.mem_cons_self
    · cases ack

theorem origin_of_ackId (ack : origin.ackId false = some id) : ∃ rest, origin = .replay id rest := by
  cases origin with
  | replay id' rest =>
    cases ack
    exact ⟨rest, rfl⟩
  | dispatch id' => cases ack

theorem failed_of_over (ended : point.isOver = true) (incomplete : point.isCompleted = false) : point = .failed := by
  cases point with
  | failed => rfl
  | visit sha rest =>
    cases rest with
    | nil => cases incomplete
    | cons channel rest => cases ended
  | _ => cases ended

theorem HandledSoFar.touched (handled : service.HandledSoFar) (running : service.handler = .running origin task point)
    (completed : point.isCompleted = true) (keyed : task.key? = some key) : service.Touched key := by
  cases task with
  | jobsetComplete notice => cases keyed
  | evaluatePush channel sha =>
    cases keyed
    have handled := handled origin channel sha point running
    cases point with
    | visit sha' rest => exact handled.2
    | _ => cases completed

theorem accounted_finish (ordered : service.Ordered) (handled : service.HandledSoFar)
    (running : service.handler = .running origin task point) (ended : point.isOver = true)
    (keeps : service.Keeps (.advance answer)) (journaled : key ∈ service.journaled)
    (accounted : service.Accounted key) : (service.finish origin point.isCompleted answer).Accounted key := by
  obtain same | ⟨succeeds, id, ack, same⟩ := @finish_cases _ service origin point.isCompleted answer
  · rw [same]
    exact accounted
  · rw [same]
    obtain queued | ⟨entry, member, keyed⟩ | others := accounted
    · exact .inl queued
    · by_cases acked : entry.1 = id
      · have isTask : entry.2 = task := ordered.held (id, task) (ackId_mem running ack) entry member acked
        rw [isTask] at keyed
        cases completed : point.isCompleted with
        | true => exact .inr (.inr (handled.touched running completed keyed))
        | false =>
          rw [completed] at ack
          obtain ⟨rest, rfl⟩ := origin_of_ackId ack
          obtain rfl := failed_of_over ended completed
          refine (keeps succeeds).1 (id, task) ?_ key (Option.mem_def.mpr keyed) journaled
          rw [failedReplay?, running]
          rfl
      · exact .inr (.inl ⟨entry, List.mem_filter.mpr ⟨member, decide_eq_true acked⟩, keyed⟩)
    · exact .inr (.inr others)

theorem Steps.handledSoFar (steps : Steps hasOctocrab channels service action next) (handled : service.HandledSoFar) :
    next.HandledSoFar := by
  cases steps with
  | enqueued up room => exact handled
  | concluded up => exact handled
  | crashed up => exact fun _ _ _ _ running => nomatch running
  | started down => exact fun _ _ _ _ running => nomatch running
  | unrecovered down => exact fun _ _ _ _ running => nomatch running
  | replayed done => exact fun _ _ _ _ running => nomatch running
  | replays head =>
    intro origin channel sha point running
    cases running
    exact ⟨rfl, rfl⟩
  | @received task rest persisted idle head =>
    intro origin channel sha point running
    cases persisted with
    | true | false =>
      cases running
      exact ⟨rfl, rfl⟩
  | @finished origin task point answer running ended =>
    intro origin' channel sha point' running'
    cases origin with
    | replay id rest => cases running'
    | dispatch id => cases running'
  | advanced running advances =>
    intro origin channel sha point running'
    cases running'
    exact advances.handled (handled _ _ _ _ running)

theorem Accounted.append {added : List ChannelTask} (accounted : service.Accounted key)
    (queue : next.queue = service.queue ++ added) (journal : next.journal = service.journal)
    (pending : next.pending = service.pending) (promotions : next.promotions = service.promotions) :
    next.Accounted key := by
  rw [Accounted, InQueue, InJournal, InRows, queue, journal, pending, promotions]
  obtain ⟨task, queued, same⟩ | others := accounted
  · exact .inl ⟨task, List.mem_append_left _ queued, same⟩
  · exact .inr others

theorem Steps.allAccounted (steps : Steps hasOctocrab channels service action next) (consistent : service.Consistent)
    (ordered : service.Ordered) (handled : service.HandledSoFar) (keeps : service.Keeps action)
    (all : service.AllAccounted) : next.AllAccounted := by
  cases steps with
  | enqueued up room => exact fun key member => (all key member).append rfl rfl rfl rfl
  | concluded up => exact fun key member => (all key member).append rfl rfl rfl rfl
  | crashed up =>
    intro key member
    have stored : service.Stored key := by
      obtain queued | journal | waits | stored := all key member
      · exact keeps key member (.inl queued)
      · exact .inl journal
      · exact keeps key member (.inr waits)
      · exact .inr stored
    obtain journal | stored := stored
    · exact .inr (.inl journal)
    · exact .inr (.inr (.inr stored))
  | started down => exact all
  | unrecovered down => exact all
  | replayed done => exact all
  | replays head => exact all
  | @received task rest persisted idle head =>
    intro key member
    cases persisted with
    | true =>
      obtain earlier | now := List.mem_append.mp member
      · obtain ⟨queued, waits, keyed⟩ | ⟨entry, stored, keyed⟩ | others := all key earlier
        · rw [head] at waits
          obtain rfl | later := List.mem_cons.mp waits
          · exact .inr (.inl ⟨_, List.mem_append_right _ List.mem_cons_self, keyed⟩)
          · exact .inl ⟨queued, later, keyed⟩
        · exact .inr (.inl ⟨entry, List.mem_append_left _ stored, keyed⟩)
        · exact .inr (.inr others)
      · have keyed : task.key? = some key := Option.mem_toList.mp now
        exact .inr (.inl ⟨_, List.mem_append_right _ List.mem_cons_self, keyed⟩)
    | false =>
      obtain persisted | elsewhere := keeps
      · cases persisted
      · have tail : service.queue.tail = rest := by rw [head]; rfl
        obtain ⟨queued, waits, keyed⟩ | others := all key member
        · rw [head] at waits
          obtain rfl | later := List.mem_cons.mp waits
          · have accounted := elsewhere queued (by rw [head]; rfl) key keyed member
            rw [withoutHead, tail] at accounted
            exact accounted
          · exact .inl ⟨queued, later, keyed⟩
        · exact .inr others
  | finished running ended =>
    intro key member
    exact accounted_finish ordered handled running ended keeps member (all key member)
  | advanced running advances =>
    intro key member
    rw [advances.journal_eq.2.2] at member
    exact advances.accounted running (consistent.fitting.of_running running) keeps member (all key member)

/-- While nothing is lost that is only in memory, every journaled push is accounted
for, over crashes and failures. -/
theorem run_allAccounted (hasOctocrab : Bool) (channels : List ChannelConfig) (jobs : JobDatabase DrvId)
    {actions : List (ChannelAction DrvId)} {final : ChannelService DrvId}
    (run : Run (step hasOctocrab channels) Keeps (start jobs) actions final) : final.AllAccounted := by
  have kept : final.Consistent ∧ final.Ordered ∧ final.HandledSoFar ∧ final.AllAccounted := by
    refine run.invariant (p := fun service =>
      service.Consistent ∧ service.Ordered ∧ service.HandledSoFar ∧ service.AllAccounted) ?_ ?_
    · refine ⟨consistent_start jobs, ⟨?_, ?_, ?_⟩, fun _ _ _ _ running => (nomatch running), ?_⟩
      · exact List.forall_mem_nil _
      · exact List.forall_mem_nil _
      · exact List.forall_mem_nil _
      · exact List.forall_mem_nil _
    · intro service action next holds keeps taken
      obtain ⟨consistent, ordered, handled, all⟩ := holds
      have steps := steps_of taken
      exact ⟨steps.consistent consistent, steps.ordered ordered, steps.handledSoFar handled,
        steps.allAccounted consistent ordered handled keeps all⟩
  exact kept.2.2.2

open JobDatabase (helloChannel)

/-- One commit is evaluated and another one waits for it. -/
def pushTwice : List (ChannelAction Nat) :=
  [.start true, .next, .enqueue (.evaluatePush helloChannel "c0ffee")] ++ handleTask 5 ++
    .enqueue (.evaluatePush helloChannel "deadbeef") :: handleTask 3

theorem pushTwice_allAccounted : ∃ final : ChannelService Nat,
    Run (step true [helloChannel]) Keeps (start (.empty fun _ => .queued)) pushTwice final ∧
      final.journaled = [(helloChannel.channelId, "c0ffee"), (helloChannel.channelId, "deadbeef")] ∧ final.AllAccounted :=
  exists_run_and_of_checkRun (by decide) fun _ run => run_allAccounted _ _ _ run

/-- The pending commit was acknowledged, and a crash forgets it. -/
theorem pushTwice_crash_not_accounted : ¬ ∀ (hasOctocrab : Bool) (channels : List ChannelConfig) (jobs : JobDatabase Nat)
    (actions : List (ChannelAction Nat)) (final : ChannelService Nat),
    AnyRun (step hasOctocrab channels) (start jobs) actions final → final.AllAccounted := by
  intro always
  obtain ⟨final, run, journaled, lost⟩ : ∃ final : ChannelService Nat,
      AnyRun (step true [helloChannel]) (start (.empty fun _ => .queued)) (pushTwice ++ [.crash]) final ∧
        (helloChannel.channelId, "deadbeef") ∈ final.journaled ∧ ¬ final.Accounted (helloChannel.channelId, "deadbeef") :=
    exists_run_of_exec (by decide)
  exact lost (always _ _ _ _ _ run _ journaled)

end ChannelService

end EkaCI
