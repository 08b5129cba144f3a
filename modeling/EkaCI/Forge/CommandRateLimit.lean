import EkaCI.Lib.Table
import Mathlib.Order.Interval.Finset.Nat

/-! The limiter of comment commands. It remembers when it last accepted a command of each
user for each repository, and forgets old commands once it remembers many. -/

namespace EkaCI

open Lib

/-- The seconds of a duration are a number of 64 bits. -/
def maxDuration : Nat := 2 ^ 64 * 1000000000 - 1

structure NanoDuration where
  nanos : Nat
  bounded : nanos ≤ maxDuration

/-- `none` is the overflow of `self * 2`, which panics. -/
def NanoDuration.double (duration : NanoDuration) : Option NanoDuration :=
  if bounded : 2 * duration.nanos ≤ maxDuration then some ⟨2 * duration.nanos, bounded⟩ else none

/-- `earliest` is the first instant that can be represented. -/
def checkedSub (earliest now : Int) (duration : NanoDuration) : Option Int :=
  if earliest ≤ now - duration.nanos then some (now - duration.nanos) else none

def rateLimitMapMaxEntries : Nat := 10000

structure RateLimitKey where
  userId : Int
  owner : String
  repo : String
  deriving DecidableEq

/-- The map and whether its lock is poisoned. -/
structure RateLimiter where
  entries : Table RateLimitKey Int
  poisoned : Bool

structure CommandCall where
  key : RateLimitKey
  now : Int

/-- What happens to the entries after an insertion; `none` is a panic. -/
abbrev Pruning := Int → Table RateLimitKey Int → Option (Table RateLimitKey Int)

/-- Entries of twice the interval or more are dropped once there are too many. -/
def pruneOversized (earliest : Int) (minInterval : NanoDuration) : Pruning := fun now entries =>
  if rateLimitMapMaxEntries < entries.keys.length then
    minInterval.double.map fun twice =>
      match checkedSub earliest now twice with
      | some cutoff => entries.retain (cutoff < ·)
      | none => entries
  else some entries

def neverPrune : Pruning := fun _ entries => some entries

namespace RateLimiter

def empty : RateLimiter := ⟨.empty, false⟩

/-- Whether the command is accepted; `none` is a panic, which poisons the lock. -/
def checkAndRecord (prune : Pruning) (minInterval : NanoDuration) (limiter : RateLimiter) (call : CommandCall) :
    Option Bool × RateLimiter :=
  if limiter.poisoned then (some true, limiter)
  else if (limiter.entries.get call.key).any fun last => (call.now - last).toNat < minInterval.nanos then
    (some false, limiter)
  else
    let entries := limiter.entries.push call.key call.now
    match prune call.now entries with
    | some kept => (some true, ⟨kept, false⟩)
    | none => (none, ⟨entries, true⟩)

end RateLimiter

/-- A call with its outcome. -/
abbrev CommandLog := List (CommandCall × Option Bool)

/-- One call after the other. -/
def serveCommands (prune : Pruning) (minInterval : NanoDuration) (calls : List CommandCall) : RateLimiter × CommandLog :=
  calls.foldl (fun (limiter, log) call =>
    let (outcome, next) := limiter.checkAndRecord prune minInterval call
    (next, log ++ [(call, outcome)])) (.empty, [])

/-- A call with the same key was accepted less than the interval before. -/
def Recent (minInterval : NanoDuration) (before : CommandLog) (call : CommandCall) : Prop :=
  ∃ earlier ∈ before, earlier.1.key = call.key ∧ earlier.2 = some true ∧ call.now < earlier.1.now + minInterval.nanos

instance (minInterval : NanoDuration) (before : CommandLog) (call : CommandCall) : Decidable (Recent minInterval before call) :=
  inferInstanceAs (Decidable (∃ earlier ∈ before, _))

/-- Every call has the outcome that the calls before it ask for. -/
def CommandLog.Exact (minInterval : NanoDuration) (log : CommandLog) : Prop :=
  ∀ before call outcome after, log = before ++ (call, outcome) :: after →
    outcome = some (!decide (Recent minInterval before call))

section Safe

variable {prune : Pruning} {minInterval : NanoDuration} {limiter : RateLimiter} {log : CommandLog} {call : CommandCall}
  {now later : Int}

/-- Only entries of twice the interval are dropped. -/
structure Pruning.Safe (prune : Pruning) (minInterval : NanoDuration) : Prop where
  within : ∀ now entries kept, prune now entries = some kept → ∀ key last, kept.get key = some last → entries.get key = some last
  keeps : ∀ now entries kept, prune now entries = some kept → ∀ key last, entries.get key = some last →
    kept.get key = some last ∨ last + 2 * minInterval.nanos ≤ now

theorem neverPrune_safe : neverPrune.Safe minInterval where
  within now entries kept pruned key last found := by
    cases pruned
    exact found
  keeps now entries kept pruned key last found := by
    cases pruned
    exact .inl found

theorem pruneOversized_safe {earliest : Int} : (pruneOversized earliest minInterval).Safe minInterval where
  within now entries kept pruned key last found := by
    unfold pruneOversized at pruned
    split at pruned
    · obtain ⟨twice, doubled, rfl⟩ := Option.map_eq_some_iff.mp pruned
      split at found
      · exact (Table.retain_get_eq_some.mp found).1
      · exact found
    · cases pruned
      exact found
  keeps now entries kept pruned key last found := by
    unfold pruneOversized at pruned
    split at pruned
    · obtain ⟨twice, doubled, rfl⟩ := Option.map_eq_some_iff.mp pruned
      split
      · rename_i cutoff subtracted
        unfold NanoDuration.double at doubled
        split at doubled
        · cases doubled
          unfold checkedSub at subtracted
          split at subtracted
          · cases subtracted
            by_cases old : now - ((2 * minInterval.nanos : Nat) : Int) < last
            · exact .inl (Table.retain_get_eq_some.mpr ⟨found, decide_eq_true old⟩)
            · right
              push_cast at old
              omega
          · cases subtracted
        · cases doubled
      · exact .inl found
    · cases pruned
      exact .inl found

/-- What the limiter knows of the calls before: of every accepted one, or of a later one with its
key, unless it is long ago. -/
structure RateLimiter.Remembers (minInterval : NanoDuration) (limiter : RateLimiter) (log : CommandLog) (now : Int) : Prop where
  sound : limiter.poisoned = false
  recorded : ∀ key last, limiter.entries.get key = some last → (⟨key, last⟩, some true) ∈ log
  kept : ∀ earlier, (earlier, some true) ∈ log →
    (∃ last, limiter.entries.get earlier.key = some last ∧ earlier.now ≤ last) ∨ earlier.now + 2 * minInterval.nanos ≤ now
  past : ∀ earlier ∈ log, earlier.1.now ≤ now

theorem remembers_empty : RateLimiter.empty.Remembers minInterval [] now where
  sound := rfl
  recorded _ _ found := nomatch found
  kept _ member := nomatch member
  past _ member := nomatch member

theorem RateLimiter.Remembers.wait (remembers : limiter.Remembers minInterval log now) (order : now ≤ later) :
    limiter.Remembers minInterval log later where
  sound := remembers.sound
  recorded := remembers.recorded
  kept earlier member := (remembers.kept earlier member).imp id fun old => old.trans order
  past earlier member := (remembers.past earlier member).trans order

theorem RateLimiter.Remembers.recent_iff (remembers : limiter.Remembers minInterval log call.now) :
    (limiter.entries.get call.key).any (fun last => (call.now - last).toNat < minInterval.nanos) = true ↔
      Recent minInterval log call := by
  rw [Option.any_eq_true]
  constructor
  · rintro ⟨last, found, soon⟩
    have member := remembers.recorded _ _ found
    have order : last ≤ call.now := remembers.past _ member
    refine ⟨_, member, rfl, rfl, ?_⟩
    have soon := of_decide_eq_true soon
    dsimp only
    omega
  · rintro ⟨⟨earlier, _⟩, member, same, rfl, soon⟩
    dsimp only at same soon
    have before : earlier.now ≤ call.now := remembers.past _ member
    rcases remembers.kept earlier member with ⟨last, found, order⟩ | old
    · refine ⟨last, same ▸ found, decide_eq_true ?_⟩
      omega
    · omega

theorem RateLimiter.Remembers.serve (safe : prune.Safe minInterval) (remembers : limiter.Remembers minInterval log call.now)
    {outcome : Bool} {next : RateLimiter} (served : limiter.checkAndRecord prune minInterval call = (some outcome, next)) :
    outcome = (!decide (Recent minInterval log call)) ∧
      next.Remembers minInterval (log ++ [(call, some outcome)]) call.now := by
  rw [checkAndRecord, if_neg (by rw [remembers.sound]; exact Bool.false_ne_true)] at served
  have past : ∀ outcome, ∀ earlier ∈ log ++ [(call, outcome)], earlier.1.now ≤ call.now := by
    intro outcome earlier member
    rcases List.mem_append.mp member with old | new
    · exact remembers.past earlier old
    · rw [List.mem_singleton.mp new]
  split at served
  · rename_i soon
    obtain ⟨rfl, rfl⟩ : false = outcome ∧ limiter = next := by simpa using served
    refine ⟨by simp [remembers.recent_iff.mp soon], remembers.sound, ?_, ?_, past _⟩
    · exact fun key last found => List.mem_append_left _ (remembers.recorded key last found)
    · intro earlier member
      rcases List.mem_append.mp member with old | new
      · exact remembers.kept earlier old
      · cases List.mem_singleton.mp new
  · rename_i rested
    have fresh : ¬ Recent minInterval log call := fun recent => rested (remembers.recent_iff.mpr recent)
    dsimp only at served
    split at served
    · rename_i kept pruned
      obtain ⟨rfl, rfl⟩ : true = outcome ∧ (⟨kept, false⟩ : RateLimiter) = next := by simpa using served
      refine ⟨by simp [fresh], rfl, ?_, ?_, past _⟩
      · intro key last found
        have found := safe.within _ _ _ pruned key last found
        rw [Table.push_get] at found
        split at found
        · rename_i own
          cases found
          rw [own]
          exact List.mem_append_right _ List.mem_cons_self
        · exact List.mem_append_left _ (remembers.recorded key last found)
      · intro earlier member
        -- What was known before the pruning is still known, or old.
        have known : (∃ last, (limiter.entries.push call.key call.now).get earlier.key = some last ∧ earlier.now ≤ last) ∨
            earlier.now + 2 * minInterval.nanos ≤ call.now := by
          by_cases own : earlier.key = call.key
          · refine .inl ⟨call.now, by rw [own, Table.push_get_self], past _ _ member⟩
          · rcases List.mem_append.mp member with old | new
            · rw [Table.push_get, if_neg own]
              exact remembers.kept earlier old
            · cases List.mem_singleton.mp new
              exact absurd rfl own
        rcases known with ⟨last, found, order⟩ | old
        · rcases safe.keeps _ _ _ pruned _ _ found with still | old
          · exact .inl ⟨last, still, order⟩
          · exact .inr (by omega)
        · exact .inr old
    · cases served

end Safe

section Run

variable {prune : Pruning} {minInterval : NanoDuration} {calls : List CommandCall}

theorem serveCommands_append (calls : List CommandCall) (call : CommandCall) :
    serveCommands prune minInterval (calls ++ [call]) =
      (((serveCommands prune minInterval calls).1.checkAndRecord prune minInterval call).2,
        (serveCommands prune minInterval calls).2 ++
          [(call, ((serveCommands prune minInterval calls).1.checkAndRecord prune minInterval call).1)]) := by
  rw [serveCommands, List.foldl_append]
  rfl

theorem exact_nil : CommandLog.Exact minInterval [] := by
  intro before call outcome after split
  cases (List.append_eq_nil_iff.mp split.symm).2

theorem CommandLog.Exact.append {log : CommandLog} {call : CommandCall} {outcome : Option Bool}
    (exact : log.Exact minInterval) (own : outcome = some (!decide (Recent minInterval log call))) :
    CommandLog.Exact minInterval (log ++ [(call, outcome)]) := by
  intro before other result after split
  rcases List.eq_nil_or_concat after with rfl | ⟨rest, last, rfl⟩
  · obtain ⟨rfl, same⟩ := List.append_inj' split rfl
    cases same
    exact own
  · rw [List.concat_eq_append, ← List.cons_append, ← List.append_assoc] at split
    exact exact before other result rest (List.append_inj' split rfl).1

theorem CommandLog.Exact.init {log : CommandLog} {entry : CommandCall × Option Bool}
    (exact : CommandLog.Exact minInterval (log ++ [entry])) : log.Exact minInterval := by
  intro before call outcome after split
  apply exact before call outcome (after ++ [entry])
  rw [split, List.append_assoc, List.cons_append]

theorem map_fst_serveCommands : (serveCommands prune minInterval calls).2.map Prod.fst = calls := by
  induction calls using List.reverseRecOn with
  | nil => rfl
  | append_singleton earlier last ih => rw [serveCommands_append, List.map_append, ih, List.map_singleton]

theorem serveCommands_exact (safe : prune.Safe minInterval) (ordered : (calls.map CommandCall.now).Pairwise (· ≤ ·))
    (quiet : ∀ entry ∈ (serveCommands prune minInterval calls).2, entry.2.isSome = true) :
    (serveCommands prune minInterval calls).2.Exact minInterval ∧
      ∀ now, (∀ call ∈ calls, call.now ≤ now) →
        (serveCommands prune minInterval calls).1.Remembers minInterval (serveCommands prune minInterval calls).2 now := by
  induction calls using List.reverseRecOn with
  | nil => exact ⟨exact_nil, fun _ _ => remembers_empty⟩
  | append_singleton earlier last ih =>
    rw [List.map_append, List.pairwise_append] at ordered
    obtain ⟨ordered, -, between⟩ := ordered
    rw [serveCommands_append] at quiet ⊢
    obtain ⟨exact, remembers⟩ := ih ordered fun entry member => quiet entry (List.mem_append_left _ member)
    have remembers := remembers last.now fun call member =>
      between _ (List.mem_map_of_mem member) _ List.mem_cons_self
    have answered := quiet _ (List.mem_append_right _ List.mem_cons_self)
    obtain ⟨outcome, found⟩ := Option.isSome_iff_exists.mp answered
    dsimp only at found
    obtain ⟨own, next⟩ := remembers.serve safe (Prod.ext found rfl)
    dsimp only
    rw [found]
    refine ⟨exact.append (own ▸ rfl), fun now all => next.wait ?_⟩
    exact all last (List.mem_append_right _ List.mem_cons_self)

theorem CommandLog.Exact.unique {log other : CommandLog} (exact : log.Exact minInterval)
    (exact' : other.Exact minInterval) (same : log.map Prod.fst = other.map Prod.fst) : log = other := by
  induction log using List.reverseRecOn generalizing other with
  | nil => exact (List.map_eq_nil_iff.mp same.symm).symm
  | append_singleton earlier last ih =>
    rcases List.eq_nil_or_concat other with rfl | ⟨before, final, rfl⟩
    · simp at same
    · rw [List.concat_eq_append] at exact' same ⊢
      rw [List.map_append, List.map_append] at same
      obtain ⟨same, ends⟩ := List.append_inj' same rfl
      have alike : earlier = before := ih exact.init exact'.init same
      have call : last.1 = final.1 := (List.cons.inj ends).1
      have here := exact earlier last.1 last.2 [] rfl
      have there := exact' before final.1 final.2 [] rfl
      rw [alike, Prod.ext call (here.trans (alike ▸ call ▸ there.symm))]

variable {earliest : Int} {limiter : RateLimiter} {call : CommandCall}

/-- The interval can be doubled, or there are never enough entries for it to be doubled. -/
def PruningFits (minInterval : NanoDuration) (calls : List CommandCall) : Prop :=
  2 * minInterval.nanos ≤ maxDuration ∨ (calls.map CommandCall.key).dedup.length ≤ rateLimitMapMaxEntries

theorem dedup_length_le {keys : List RateLimitKey} (within : ∀ call ∈ calls, call.key ∈ keys) :
    (calls.map CommandCall.key).dedup.length ≤ keys.length := by
  refine (List.Nodup.subperm (List.nodup_dedup _) fun key member => ?_).length_le
  obtain ⟨call, listed, rfl⟩ := List.mem_map.mp (List.mem_dedup.mp member)
  exact within call listed

theorem PruningFits.init (fits : PruningFits minInterval (calls ++ [call])) : PruningFits minInterval calls := by
  refine fits.imp id fun few => le_trans (dedup_length_le fun other member => ?_) few
  exact List.mem_dedup.mpr (List.mem_map_of_mem (List.mem_append_left _ member))

theorem pruneOversized_cases (earliest : Int) (minInterval : NanoDuration) (now : Int) (entries : Table RateLimitKey Int) :
    (∃ kept, pruneOversized earliest minInterval now entries = some kept ∧ kept.keys ⊆ entries.keys ∧
      (2 * minInterval.nanos ≤ maxDuration ∨ kept = entries ∧ entries.keys.length ≤ rateLimitMapMaxEntries)) ∨
    pruneOversized earliest minInterval now entries = none ∧ ¬ 2 * minInterval.nanos ≤ maxDuration ∧
      rateLimitMapMaxEntries < entries.keys.length := by
  rw [pruneOversized, NanoDuration.double]
  split
  · rename_i many
    split
    · rename_i bounded
      refine .inl ⟨_, rfl, ?_, .inl bounded⟩
      dsimp only
      split
      · exact fun key member => (List.mem_filter.mp member).1
      · exact List.Subset.refl _
    · rename_i overflow
      exact .inr ⟨rfl, overflow, many⟩
  · rename_i few
    exact .inl ⟨entries, rfl, List.Subset.refl _, .inr ⟨rfl, Nat.le_of_not_lt few⟩⟩

theorem checkAndRecord_cases (prune : Pruning) (minInterval : NanoDuration) (call : CommandCall)
    (sound : limiter.poisoned = false) :
    (call.key ∈ limiter.entries.keys ∧ limiter.checkAndRecord prune minInterval call = (some false, limiter)) ∨
    (∃ kept, prune call.now (limiter.entries.push call.key call.now) = some kept ∧
      limiter.checkAndRecord prune minInterval call = (some true, ⟨kept, false⟩)) ∨
    (prune call.now (limiter.entries.push call.key call.now) = none ∧
      limiter.checkAndRecord prune minInterval call = (none, ⟨limiter.entries.push call.key call.now, true⟩)) := by
  rw [RateLimiter.checkAndRecord, sound, if_neg Bool.false_ne_true]
  split
  · rename_i soon
    obtain ⟨last, found, -⟩ := (Option.any_eq_true _ _).mp soon
    exact .inl ⟨Table.mem_keys_of_get found, rfl⟩
  · dsimp only
    split
    · rename_i kept pruned
      exact .inr (.inl ⟨kept, pruned, rfl⟩)
    · rename_i panics
      exact .inr (.inr ⟨panics, rfl⟩)

theorem push_keys_subset {keys : List RateLimitKey} (within : limiter.entries.keys ⊆ keys) (member : call.key ∈ keys) :
    (limiter.entries.push call.key call.now).keys ⊆ keys := by
  intro key listed
  rw [Table.push_keys] at listed
  rcases List.mem_cons.mp listed with rfl | older
  · exact member
  · exact within (List.mem_of_mem_erase older)

theorem quiet_of_fits (fits : PruningFits minInterval calls) :
    (∀ entry ∈ (serveCommands (pruneOversized earliest minInterval) minInterval calls).2, entry.2.isSome = true) ∧
      (serveCommands (pruneOversized earliest minInterval) minInterval calls).1.poisoned = false ∧
      (serveCommands (pruneOversized earliest minInterval) minInterval calls).1.entries.keys ⊆ calls.map CommandCall.key := by
  induction calls using List.reverseRecOn with
  | nil => exact ⟨List.forall_mem_nil _, rfl, List.Subset.refl _⟩
  | append_singleton earlier last ih =>
    obtain ⟨quiet, sound, within⟩ := ih fits.init
    rw [serveCommands_append, List.map_append]
    generalize (serveCommands (pruneOversized earliest minInterval) minInterval earlier).1 = limiter at sound within ⊢
    have answered : ∀ outcome : Option Bool, outcome.isSome = true → ∀ entry ∈
        (serveCommands (pruneOversized earliest minInterval) minInterval earlier).2 ++ [(last, outcome)],
        entry.2.isSome = true := by
      intro outcome given entry member
      rcases List.mem_append.mp member with old | new
      · exact quiet entry old
      · rwa [List.mem_singleton.mp new]
    have pushed : (limiter.entries.push last.key last.now).keys ⊆ earlier.map CommandCall.key ++ [last].map CommandCall.key :=
      push_keys_subset (List.subset_append_of_subset_left _ within) (List.mem_append_right _ List.mem_cons_self)
    rcases checkAndRecord_cases (pruneOversized earliest minInterval) minInterval last sound with
      ⟨-, served⟩ | ⟨kept, pruned, served⟩ | ⟨panics, served⟩
    · rw [served]
      exact ⟨answered _ rfl, sound, List.subset_append_of_subset_left _ within⟩
    · rw [served]
      refine ⟨answered _ rfl, rfl, List.Subset.trans ?_ pushed⟩
      rcases pruneOversized_cases earliest minInterval last.now
        (limiter.entries.push last.key last.now) with ⟨other, found, subset, -⟩ | ⟨failed, -⟩
      · rw [pruned] at found
        cases found
        exact subset
      · rw [pruned] at failed
        cases failed
    · rcases pruneOversized_cases earliest minInterval last.now
        (limiter.entries.push last.key last.now) with ⟨other, found, -⟩ | ⟨-, overflow, many⟩
      · rw [panics] at found
        cases found
      · -- Too many entries are too many keys.
        have few := fits.resolve_left overflow
        have bound := (List.Nodup.subperm (limiter.entries.push last.key last.now).nodup
          fun key member => List.mem_dedup.mpr (List.map_append ▸ pushed member)).length_le
        omega

theorem keys_of_quiet (overflow : ¬ 2 * minInterval.nanos ≤ maxDuration)
    (quiet : ∀ entry ∈ (serveCommands (pruneOversized earliest minInterval) minInterval calls).2, entry.2.isSome = true) :
    (serveCommands (pruneOversized earliest minInterval) minInterval calls).1.poisoned = false ∧
      (∀ call ∈ calls, call.key ∈ (serveCommands (pruneOversized earliest minInterval) minInterval calls).1.entries.keys) ∧
      (serveCommands (pruneOversized earliest minInterval) minInterval calls).1.entries.keys.length ≤ rateLimitMapMaxEntries := by
  induction calls using List.reverseRecOn with
  | nil => exact ⟨rfl, List.forall_mem_nil _, Nat.zero_le _⟩
  | append_singleton earlier last ih =>
    rw [serveCommands_append] at quiet ⊢
    obtain ⟨sound, all, few⟩ := ih fun entry member => quiet entry (List.mem_append_left _ member)
    have answered := quiet _ (List.mem_append_right _ List.mem_cons_self)
    dsimp only at answered ⊢
    generalize (serveCommands (pruneOversized earliest minInterval) minInterval earlier).1 = limiter at sound all few answered ⊢
    rcases checkAndRecord_cases (pruneOversized earliest minInterval) minInterval last sound with
      ⟨known, served⟩ | ⟨kept, pruned, served⟩ | ⟨panics, served⟩
    · rw [served]
      refine ⟨sound, fun call member => ?_, few⟩
      rcases List.mem_append.mp member with old | new
      · exact all call old
      · rwa [List.mem_singleton.mp new]
    · rw [served]
      rcases pruneOversized_cases earliest minInterval last.now (limiter.entries.push last.key last.now) with
        ⟨other, found, -, doubles | ⟨rfl, few⟩⟩ | ⟨failed, -⟩
      · exact absurd doubles overflow
      · rw [pruned] at found
        cases found
        refine ⟨rfl, fun call member => ?_, few⟩
        rw [Table.push_keys]
        by_cases own : call.key = last.key
        · exact own ▸ List.mem_cons_self
        · refine List.mem_cons_of_mem _ ((List.mem_erase_of_ne own).mpr ?_)
          rcases List.mem_append.mp member with old | new
          · exact all call old
          · exact absurd (List.mem_singleton.mp new ▸ rfl) own
      · rw [pruned] at failed
        cases failed
    · rw [served] at answered
      cases answered

end Run

/-- Every call is decided by the calls before it, and forgetting old entries changes nothing. -/
structure LimitsExactly (earliest : Int) (minInterval : NanoDuration) (calls : List CommandCall) : Prop where
  exact : (serveCommands (pruneOversized earliest minInterval) minInterval calls).2.Exact minInterval
  unpruned : (serveCommands (pruneOversized earliest minInterval) minInterval calls).2 =
    (serveCommands neverPrune minInterval calls).2

section Limits

variable {earliest : Int} {minInterval : NanoDuration} {calls : List CommandCall}

theorem neverPrune_quiet : (∀ entry ∈ (serveCommands neverPrune minInterval calls).2, entry.2.isSome = true) ∧
    (serveCommands neverPrune minInterval calls).1.poisoned = false := by
  induction calls using List.reverseRecOn with
  | nil => exact ⟨List.forall_mem_nil _, rfl⟩
  | append_singleton earlier last ih =>
    obtain ⟨quiet, sound⟩ := ih
    rw [serveCommands_append]
    rcases checkAndRecord_cases neverPrune minInterval last sound with ⟨-, served⟩ | ⟨kept, -, served⟩ | ⟨panics, -⟩
    · rw [served]
      refine ⟨fun entry member => ?_, sound⟩
      rcases List.mem_append.mp member with old | new
      · exact quiet entry old
      · rw [List.mem_singleton.mp new]
        rfl
    · rw [served]
      refine ⟨fun entry member => ?_, rfl⟩
      rcases List.mem_append.mp member with old | new
      · exact quiet entry old
      · rw [List.mem_singleton.mp new]
        rfl
    · cases panics

theorem PruningFits.limitsExactly (fits : PruningFits minInterval calls)
    (ordered : (calls.map CommandCall.now).Pairwise (· ≤ ·)) : LimitsExactly earliest minInterval calls where
  exact := (serveCommands_exact pruneOversized_safe ordered (quiet_of_fits fits).1).1
  unpruned := by
    refine (serveCommands_exact pruneOversized_safe ordered (quiet_of_fits fits).1).1.unique
      (serveCommands_exact neverPrune_safe ordered neverPrune_quiet.1).1 ?_
    rw [map_fst_serveCommands, map_fst_serveCommands]

theorem LimitsExactly.fits (limits : LimitsExactly earliest minInterval calls) : PruningFits minInterval calls := by
  refine or_iff_not_imp_left.mpr fun overflow => ?_
  have quiet : ∀ entry ∈ (serveCommands (pruneOversized earliest minInterval) minInterval calls).2, entry.2.isSome = true := by
    rw [limits.unpruned]
    exact neverPrune_quiet.1
  obtain ⟨-, all, few⟩ := keys_of_quiet overflow quiet
  exact (dedup_length_le all).trans few

/-- The limiter is exact as long as the interval can be doubled, or there are few keys. -/
theorem limitsExactly_iff (ordered : (calls.map CommandCall.now).Pairwise (· ≤ ·)) :
    LimitsExactly earliest minInterval calls ↔ PruningFits minInterval calls :=
  ⟨LimitsExactly.fits, fun fits => fits.limitsExactly ordered⟩

end Limits

def fiveSeconds : NanoDuration := ⟨5000000000, by rw [maxDuration]; omega⟩

def adaMerges (now : Int) : CommandCall := ⟨⟨42, "ekala", "corepkgs"⟩, now⟩

/-- Of three commands within ten seconds the second one is too early. -/
theorem limitsExactly_threeMerges :
    LimitsExactly 0 fiveSeconds [adaMerges 0, adaMerges 4000000000, adaMerges 5000000000] :=
  (limitsExactly_iff (by decide)).mpr (.inl (by simp only [fiveSeconds, maxDuration]; omega))

def longestInterval : NanoDuration := ⟨maxDuration, le_refl _⟩

def crowd : List CommandCall :=
  (List.range (rateLimitMapMaxEntries + 1)).map fun user : Nat => ⟨⟨(user : Int), "ekala", "corepkgs"⟩, 0⟩

/-- The interval overflows when it is doubled, which ten thousand users and one bring about. -/
theorem not_limitsExactly_crowd : ¬ ∀ earliest minInterval calls,
    (calls.map CommandCall.now).Pairwise (· ≤ ·) → LimitsExactly earliest minInterval calls := by
  intro always
  have ordered : (crowd.map CommandCall.now).Pairwise (· ≤ ·) := by
    rw [crowd, List.map_map, List.pairwise_map]
    exact List.pairwise_of_forall fun _ _ => le_refl _
  rcases (always 0 longestInterval crowd ordered).fits with doubles | few
  · simp only [longestInterval, maxDuration] at doubles
    omega
  · have distinct : (crowd.map CommandCall.key).Nodup := by
      rw [crowd, List.map_map]
      refine List.Nodup.map (fun first second same => ?_) List.nodup_range
      simp only [Function.comp_apply, RateLimitKey.mk.injEq] at same
      exact Int.ofNat_inj.mp same.1
    rw [distinct.dedup, crowd, List.length_map, List.length_map, List.length_range] at few
    exact absurd few (Nat.not_succ_le_self _)

end EkaCI
