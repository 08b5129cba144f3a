import EkaCI.Jobs.Database
import EkaCI.Lib.Collect
import Mathlib.Data.List.Sort

/-! The decision whether a release channel may advance to a commit, from the build
states of the jobs that the channel names. -/

namespace EkaCI

open Lib

inductive ChannelForge where
  | gitHub
  | gitLab (domain : String)
  | gitea (domain : String)
  deriving DecidableEq

def ChannelForge.asIdPrefix : ChannelForge → String
  | .gitHub => "github"
  | .gitLab domain => "gitlab:" ++ domain
  | .gitea domain => "gitea:" ++ domain

structure ChannelConfig where
  forge : ChannelForge
  owner : String
  repo : String
  name : String
  trackingBranch : String
  targetBranch : String
  /-- Jobs that must succeed. -/
  required : List String
  /-- Jobs that must be finished, in whatever way. -/
  packages : List String
  dryRun : Bool
  deriving DecidableEq

def ChannelConfig.channelId (channel : ChannelConfig) : String :=
  channel.forge.asIdPrefix ++ "/" ++ channel.owner ++ "/" ++ channel.repo ++ "/" ++ channel.name

abbrev JobStates := String → Option DrvBuildState

/-- An ordered map of job names. -/
abbrev RequiredResults := List (String × DrvBuildState)

def RequiredResults.insert (results : RequiredResults) (name : String) (state : DrvBuildState) : RequiredResults :=
  (results.filter fun result => result.1 ≠ name).orderedInsert (fun first second => first.1 ≤ second.1) (name, state)

inductive PromotionDecision where
  | ready (requiredResults : RequiredResults)
  | blocked (failedRequired : List String) (requiredResults : RequiredResults)
  | waiting (pendingRequired pendingPackages : List String)

def PromotionDecision.isReady : PromotionDecision → Bool
  | .ready _ => true
  | _ => false

def PromotionDecision.isBlocked : PromotionDecision → Bool
  | .blocked _ _ => true
  | _ => false

namespace Evaluator

/-- What the pass over the required jobs has found. -/
structure Tally where
  requiredResults : RequiredResults := []
  failedRequired : List String := []
  pendingRequired : List String := []

def Tally.fail (tally : Tally) (name : String) (state : DrvBuildState) : Tally :=
  { tally with
    failedRequired := tally.failedRequired ++ [name]
    requiredResults := tally.requiredResults.insert name state }

def Tally.visit (jobStates : JobStates) (tally : Tally) (name : String) : Tally :=
  match jobStates name with
  | none => { tally with pendingRequired := tally.pendingRequired ++ [name] }
  | some state =>
    if state.isFailure then tally.fail name state
    else if state = .completed .success then
      { tally with requiredResults := tally.requiredResults.insert name state }
    else if state.isTerminal then tally.fail name state
    else { tally with pendingRequired := tally.pendingRequired ++ [name] }

def sorted (names : List String) : List String := names.insertionSort (· ≤ ·)

def isFinished (jobStates : JobStates) (name : String) : Bool := (jobStates name).any DrvBuildState.isTerminal

end Evaluator

open Evaluator in
def evaluatePromotion (channel : ChannelConfig) (jobStates : JobStates) : PromotionDecision :=
  let tally := channel.required.foldl (Tally.visit jobStates) {}
  if tally.failedRequired ≠ [] then .blocked (sorted tally.failedRequired) tally.requiredResults
  else
    let pendingPackages := channel.packages.filter fun name => !isFinished jobStates name
    if tally.pendingRequired = [] ∧ pendingPackages = [] then .ready tally.requiredResults
    else .waiting (sorted tally.pendingRequired) (sorted pendingPackages)

namespace Evaluator

variable {jobStates : JobStates} {channel : ChannelConfig}

/-- A required job that stops the promotion. -/
def hasFailed (jobStates : JobStates) (name : String) : Bool := (jobStates name).any DrvBuildState.isFailure

theorem visit_cases (jobStates : JobStates) (name : String) :
    (hasFailed jobStates name = true ∧ jobStates name ≠ some (.completed .success) ∧
      ∃ state, ∀ tally : Tally, tally.visit jobStates name = tally.fail name state) ∨
    (hasFailed jobStates name = false ∧ jobStates name = some (.completed .success) ∧
      ∃ state, ∀ tally : Tally, tally.visit jobStates name =
        { tally with requiredResults := tally.requiredResults.insert name state }) ∨
    (hasFailed jobStates name = false ∧ jobStates name ≠ some (.completed .success) ∧
      ∀ tally : Tally, tally.visit jobStates name =
        { tally with pendingRequired := tally.pendingRequired ++ [name] }) := by
  unfold hasFailed Tally.visit
  cases jobStates name with
  | none => simp
  | some state =>
    cases state with
    | completed result =>
      cases result with
      | success => exact .inr (.inl ⟨rfl, rfl, _, fun _ => rfl⟩)
      | failure => exact .inl ⟨rfl, by simp, _, fun _ => rfl⟩
    | interrupted | transitiveFailure | unsatisfiableRequirements => exact .inl ⟨rfl, by simp, _, fun _ => rfl⟩
    | _ => exact .inr (.inr ⟨rfl, by simp, fun _ => rfl⟩)

theorem foldl_visit (names : List String) (tally : Tally) :
    (names.foldl (Tally.visit jobStates) tally).failedRequired =
        tally.failedRequired ++ names.filter (hasFailed jobStates) ∧
      (names.foldl (Tally.visit jobStates) tally).pendingRequired =
        tally.pendingRequired ++ names.filter fun name =>
          !hasFailed jobStates name && jobStates name ≠ some (.completed .success) := by
  induction names generalizing tally with
  | nil => simp
  | cons name rest ih =>
    rw [List.foldl_cons, (ih _).1, (ih _).2]
    obtain ⟨failed, unlike, state, visited⟩ | ⟨fine, like, state, visited⟩ | ⟨fine, unlike, visited⟩ :=
      visit_cases jobStates name
    · simp [visited, Tally.fail, failed]
    · simp [visited, fine, like]
    · simp [visited, fine, unlike]

end Evaluator

section Decisions

variable {jobStates : JobStates} {channel : ChannelConfig}

open Evaluator

theorem evaluatePromotion_eq (channel : ChannelConfig) (jobStates : JobStates) :
    ∃ results, evaluatePromotion channel jobStates =
      if channel.required.filter (hasFailed jobStates) ≠ [] then
        .blocked (sorted (channel.required.filter (hasFailed jobStates))) results
      else if (channel.required.filter fun name =>
          !hasFailed jobStates name && jobStates name ≠ some (.completed .success)) = [] ∧
          (channel.packages.filter fun name => !isFinished jobStates name) = [] then .ready results
      else
        .waiting (sorted (channel.required.filter fun name =>
            !hasFailed jobStates name && jobStates name ≠ some (.completed .success)))
          (sorted (channel.packages.filter fun name => !isFinished jobStates name)) := by
  obtain ⟨failed, pending⟩ := @foldl_visit jobStates channel.required {}
  refine ⟨(channel.required.foldl (Tally.visit jobStates) {}).requiredResults, ?_⟩
  simp only [evaluatePromotion, failed, pending, List.nil_append]

theorem isReady_iff : (evaluatePromotion channel jobStates).isReady = true ↔
    (∀ name ∈ channel.required, jobStates name = some (.completed .success)) ∧
      ∀ name ∈ channel.packages, isFinished jobStates name = true := by
  obtain ⟨results, decided⟩ := evaluatePromotion_eq channel jobStates
  have success : ∀ name, jobStates name = some (.completed .success) → hasFailed jobStates name = false := by
    intro name found
    rw [hasFailed, found]
    rfl
  rw [decided]
  split
  · rename_i failed
    refine iff_of_false Bool.false_ne_true fun holds => failed ?_
    refine List.filter_eq_nil_iff.mpr fun name member => ?_
    rw [success name (holds.1 name member)]
    exact Bool.false_ne_true
  · rename_i none
    have none := List.filter_eq_nil_iff.mp (Decidable.not_not.mp none)
    split
    · rename_i all
      refine iff_of_true rfl ⟨fun name member => ?_, fun name member => ?_⟩
      · have settled := List.filter_eq_nil_iff.mp all.1 name member
        simpa [none name member] using settled
      · simpa using List.filter_eq_nil_iff.mp all.2 name member
    · rename_i some
      refine iff_of_false Bool.false_ne_true fun holds => some ⟨?_, ?_⟩
      · exact List.filter_eq_nil_iff.mpr fun name member => by simp [holds.1 name member]
      · exact List.filter_eq_nil_iff.mpr fun name member => by simp [holds.2 name member]

theorem isBlocked_iff : (evaluatePromotion channel jobStates).isBlocked = true ↔
    ∃ name ∈ channel.required, hasFailed jobStates name = true := by
  obtain ⟨results, decided⟩ := evaluatePromotion_eq channel jobStates
  rw [decided]
  split
  · rename_i failed
    obtain ⟨name, member⟩ := List.exists_mem_of_ne_nil _ failed
    obtain ⟨member, holds⟩ := List.mem_filter.mp member
    exact iff_of_true rfl ⟨name, member, holds⟩
  · rename_i none
    have none := List.filter_eq_nil_iff.mp (Decidable.not_not.mp none)
    refine iff_of_false ?_ fun ⟨name, member, holds⟩ => none name member holds
    split <;> exact Bool.false_ne_true

end Decisions

end EkaCI
