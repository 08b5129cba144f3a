import EkaCI.Channels.Evaluator
import Mathlib.Data.List.Pairwise

/-! The table of promotions. A channel has at most one row that is being evaluated,
which an index of the table enforces; the newest row of a commit tells whether it
was decided. -/

namespace EkaCI

inductive PromotionStatus where
  | evaluating
  | blocked
  | promoted
  | pushFailed
  | skipped
  deriving DecidableEq, Repr

/-- A decision that is not taken again. -/
def PromotionStatus.isDecided : PromotionStatus → Bool
  | .promoted | .blocked | .pushFailed => true
  | .evaluating | .skipped => false

/-- A row of `ChannelPromotion`. The rows are kept in the order of their ids. -/
structure ChannelPromotionRow where
  channelId : String
  trackingSha : String
  targetBranch : String
  previousTargetSha : Option String
  status : PromotionStatus
  blockedReason : Option (List String)
  requiredResults : Option RequiredResults
  deriving DecidableEq

namespace ChannelPromotionRow

def isFor (row : ChannelPromotionRow) (channelId sha : String) : Prop := row.channelId = channelId ∧ row.trackingSha = sha

instance (row : ChannelPromotionRow) (channelId sha : String) : Decidable (row.isFor channelId sha) :=
  inferInstanceAs (Decidable (_ ∧ _))

def isInFlight (row : ChannelPromotionRow) (channelId : String) : Prop :=
  row.channelId = channelId ∧ row.status = .evaluating

instance (row : ChannelPromotionRow) (channelId : String) : Decidable (row.isInFlight channelId) :=
  inferInstanceAs (Decidable (_ ∧ _))

end ChannelPromotionRow

/-- The terminal states that an evaluation is moved to. -/
inductive Verdict where
  | promoted (requiredResults : RequiredResults)
  | blocked (failedRequired : List String) (requiredResults : RequiredResults)

namespace Verdict

def status : Verdict → PromotionStatus
  | .promoted _ => .promoted
  | .blocked _ _ => .blocked

def requiredResults : Verdict → RequiredResults
  | .promoted results | .blocked _ results => results

def blockedReason : Verdict → Option (List String)
  | .promoted _ => none
  | .blocked failed _ => some failed

theorem isDecided_status (verdict : Verdict) : verdict.status.isDecided = true := by
  cases verdict with
  | promoted results => rfl
  | blocked failed results => rfl

end Verdict

/-- The table, with its partial unique index. -/
structure Promotions where
  rows : List ChannelPromotionRow
  single : rows.Pairwise fun first second =>
    first.status = .evaluating → second.status = .evaluating → first.channelId ≠ second.channelId

namespace Promotions

variable (promotions : Promotions) (channelId sha : String)

def empty : Promotions := ⟨[], .nil⟩

def getInFlight : Option ChannelPromotionRow := promotions.rows.find? fun row => row.isInFlight channelId

def getLatestForSha : Option ChannelPromotionRow := promotions.rows.reverse.find? fun row => row.isFor channelId sha

def alreadyDecided : Bool := (promotions.getLatestForSha channelId sha).any fun row => row.status.isDecided

/-- The index refuses a second row that is being evaluated. -/
def insertEvaluating (targetBranch : String) : Option Promotions :=
  if free : ∀ row ∈ promotions.rows, ¬ row.isInFlight channelId then
    some
      { rows := promotions.rows ++ [⟨channelId, sha, targetBranch, none, .evaluating, none, none⟩]
        single := by
          refine List.pairwise_append.mpr ⟨promotions.single, List.pairwise_singleton _ _, ?_⟩
          intro first member second added evaluating _ same
          rw [List.mem_singleton.mp added] at same
          exact free first member ⟨same, evaluating⟩ }
  else none

def insertSkipped (targetBranch : String) : Promotions where
  rows := promotions.rows ++ [⟨channelId, sha, targetBranch, none, .skipped, none, none⟩]
  single := by
    refine List.pairwise_append.mpr ⟨promotions.single, List.pairwise_singleton _ _, ?_⟩
    intro first member second added _ evaluating
    rw [List.mem_singleton.mp added] at evaluating
    cases evaluating

def finaliseRow (verdict : Verdict) (row : ChannelPromotionRow) : ChannelPromotionRow :=
  if row.isFor channelId sha ∧ row.status = .evaluating then
    { row with
      status := verdict.status
      blockedReason := verdict.blockedReason
      requiredResults := some verdict.requiredResults
      previousTargetSha := none }
  else row

theorem finaliseRow_channelId (verdict : Verdict) (row : ChannelPromotionRow) :
    (finaliseRow channelId sha verdict row).channelId = row.channelId := by
  unfold finaliseRow
  split <;> rfl

theorem finaliseRow_trackingSha (verdict : Verdict) (row : ChannelPromotionRow) :
    (finaliseRow channelId sha verdict row).trackingSha = row.trackingSha := by
  unfold finaliseRow
  split <;> rfl

variable {row first second : ChannelPromotionRow} {next : Promotions} {targetBranch : String}

theorem finaliseRow_of_status {verdict : Verdict} {status : PromotionStatus} (undecided : status.isDecided = false)
    (now : (finaliseRow channelId sha verdict row).status = status) :
    finaliseRow channelId sha verdict row = row := by
  unfold finaliseRow at now ⊢
  split at now
  · rw [← now, verdict.isDecided_status] at undecided
    cases undecided
  · rename_i other
    rw [if_neg other]

def finaliseEvaluation (verdict : Verdict) : Promotions where
  rows := promotions.rows.map (finaliseRow channelId sha verdict)
  single := by
    refine List.pairwise_map.mpr (promotions.single.imp fun {first second} unlike evaluating evaluating' => ?_)
    have kept := finaliseRow_of_status channelId sha rfl evaluating
    have kept' := finaliseRow_of_status channelId sha rfl evaluating'
    rw [kept] at evaluating ⊢
    rw [kept'] at evaluating' ⊢
    exact unlike evaluating evaluating'

/-- The newest row of a commit is the only one that is not a skip. -/
def Settled : Prop :=
  promotions.rows.Pairwise fun first second =>
    first.channelId = second.channelId → first.trackingSha = second.trackingSha → first.status = .skipped

variable {promotions channelId sha}

theorem inFlight_unique (member : first ∈ promotions.rows) (member' : second ∈ promotions.rows)
    (inFlight : first.isInFlight channelId) (inFlight' : second.isInFlight channelId) : first = second := by
  by_contra differ
  have symmetric : Std.Symm fun first second : ChannelPromotionRow =>
      first.status = .evaluating → second.status = .evaluating → first.channelId ≠ second.channelId :=
    ⟨fun _ _ unlike evaluating evaluating' => (unlike evaluating' evaluating).symm⟩
  exact promotions.single.forall member member' differ inFlight.2 inFlight'.2 (inFlight.1.trans inFlight'.1.symm)

theorem getInFlight_eq_some :
    promotions.getInFlight channelId = some row ↔ row ∈ promotions.rows ∧ row.isInFlight channelId := by
  constructor
  · intro found
    exact ⟨List.mem_of_find?_eq_some found, by simpa using List.find?_some found⟩
  · rintro ⟨member, inFlight⟩
    cases found : promotions.getInFlight channelId with
    | none => exact absurd (List.find?_eq_none.mp found row member) (by simpa using inFlight)
    | some first =>
      have flies : first.isInFlight channelId := by simpa using List.find?_some found
      rw [inFlight_unique (List.mem_of_find?_eq_some found) member flies inFlight]

theorem getInFlight_eq_none :
    promotions.getInFlight channelId = none ↔ ∀ row ∈ promotions.rows, ¬ row.isInFlight channelId := by
  rw [getInFlight, List.find?_eq_none]
  simp

theorem exists_decided (decided : promotions.alreadyDecided channelId sha = true) :
    ∃ row ∈ promotions.rows, row.isFor channelId sha ∧ row.status.isDecided = true := by
  obtain ⟨row, latest, decided⟩ := Option.any_eq_true .. |>.mp decided
  refine ⟨row, List.mem_reverse.mp (List.mem_of_find?_eq_some latest), ?_, decided⟩
  simpa using List.find?_some latest

theorem getLatestForSha_eq (settled : promotions.Settled) (member : row ∈ promotions.rows)
    (isFor : row.isFor channelId sha) (kept : row.status ≠ .skipped) :
    promotions.getLatestForSha channelId sha = some row := by
  obtain ⟨older, newer, split⟩ := List.append_of_mem member
  rw [Settled, split] at settled
  have later := (List.pairwise_append.mp settled).2.1
  have none : newer.reverse.find? (fun row => row.isFor channelId sha) = none := by
    refine List.find?_eq_none.mpr fun other newest matched => kept ?_
    have matched : other.isFor channelId sha := of_decide_eq_true matched
    exact List.rel_of_pairwise_cons later (List.mem_reverse.mp newest) (isFor.1.trans matched.1.symm)
      (isFor.2.trans matched.2.symm)
  rw [getLatestForSha, split, List.reverse_append, List.reverse_cons, List.append_assoc, List.find?_append, none,
    Option.none_or, List.singleton_append, List.find?_cons, decide_eq_true isFor]

theorem undecided_of_latest (settled : promotions.Settled) (open_ : promotions.alreadyDecided channelId sha = false)
    (member : row ∈ promotions.rows) (isFor : row.isFor channelId sha) : row.status.isDecided = false := by
  by_cases skipped : row.status = .skipped
  · rw [skipped]
    rfl
  · rw [alreadyDecided, getLatestForSha_eq settled member isFor skipped] at open_
    exact open_

theorem Settled.unique (settled : promotions.Settled) (member : first ∈ promotions.rows)
    (member' : second ∈ promotions.rows) (isFor : first.isFor channelId sha) (isFor' : second.isFor channelId sha)
    (kept : first.status ≠ .skipped) (kept' : second.status ≠ .skipped) : first = second := by
  by_contra differ
  have settled : promotions.rows.Pairwise fun first second => first.channelId = second.channelId →
      first.trackingSha = second.trackingSha → first.status = .skipped ∨ second.status = .skipped :=
    settled.imp fun skipped channel sha => .inl (skipped channel sha)
  have symmetric : Std.Symm fun first second : ChannelPromotionRow => first.channelId = second.channelId →
      first.trackingSha = second.trackingSha → first.status = .skipped ∨ second.status = .skipped :=
    ⟨fun _ _ skipped channel sha => (skipped channel.symm sha.symm).symm⟩
  obtain skipped | skipped := settled.forall member member' differ (isFor.1.trans isFor'.1.symm)
    (isFor.2.trans isFor'.2.symm)
  · exact kept skipped
  · exact kept' skipped

theorem rows_of_insertEvaluating (inserted : promotions.insertEvaluating channelId sha targetBranch = some next) :
    next.rows = promotions.rows ++ [⟨channelId, sha, targetBranch, none, .evaluating, none, none⟩] := by
  unfold insertEvaluating at inserted
  split at inserted
  · cases inserted
    rfl
  · cases inserted

theorem occupied_of_insertEvaluating (refused : promotions.insertEvaluating channelId sha targetBranch = none) :
    ∃ row ∈ promotions.rows, row.isInFlight channelId := by
  unfold insertEvaluating at refused
  split at refused
  · cases refused
  · rename_i taken
    push Not at taken
    exact taken

theorem Settled.append (settled : promotions.Settled)
    (skips : ∀ other ∈ promotions.rows, other.isFor row.channelId row.trackingSha → other.status = .skipped)
    (added : next.rows = promotions.rows ++ [row]) : next.Settled := by
  rw [Settled, added]
  refine List.pairwise_append.mpr ⟨settled, List.pairwise_singleton _ _, fun first member second last channel sha => ?_⟩
  rw [List.mem_singleton.mp last] at channel sha
  exact skips first member ⟨channel, sha⟩

theorem Settled.finalise (settled : promotions.Settled) (verdict : Verdict) :
    (promotions.finaliseEvaluation channelId sha verdict).Settled := by
  refine List.pairwise_map.mpr (settled.imp fun {first second} skipped channel sha => ?_)
  rw [finaliseRow_channelId, finaliseRow_channelId] at channel
  rw [finaliseRow_trackingSha, finaliseRow_trackingSha] at sha
  have skipped := skipped channel sha
  rw [finaliseRow, if_neg fun matched => by simp [skipped] at matched, skipped]

end Promotions

inductive CoalesceAction where
  | startFresh
  | alreadyInFlight
  | deferAsPending (previousPendingSha : Option String)

def coalesce (inFlightSha currentPendingSha : Option String) (candidateSha : String) : CoalesceAction :=
  match inFlightSha with
  | none => .startFresh
  | some sha =>
    if sha = candidateSha then .alreadyInFlight
    else if currentPendingSha = some candidateSha then .alreadyInFlight
    else .deferAsPending currentPendingSha

end EkaCI
