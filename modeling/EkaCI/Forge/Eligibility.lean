import EkaCI.Forge.AutoMerge

/-! The rules that say when a pull request may be merged are written four times: once
for all forges, and once in the service of each forge, which is what is run. -/

namespace EkaCI

variable {DrvId : Type}

/-- The part of a comment's request that the rules look at. -/
structure SharedCommentMerge where
  sha : String
  method : Option String

structure AutoMergeState where
  autoMergeEnabled : Bool
  commentMerge : Option SharedCommentMerge
  headSha : String
  buildSucceeded : Bool
  changedPackages : List String
  missingApprovals : List String
  mergeMethod : Option String
  allowedMergeMethods : List String

inductive MergeEligibility where
  | eligible (mergeMethod : String)
  | buildInProgress
  | notFound
  | shaDrift (expected actual : String)
  | notEnabled
  | noChangedPackages
  | missingApprovals (packages : List String)
  | methodNotAllowed (requested : String) (allowed : List String)

namespace AutoMergeState

/-- The method that a comment asks for, or else the stored one, or else a default. -/
def methodOr (state : AutoMergeState) (default : String) : String :=
  ((state.commentMerge.bind SharedCommentMerge.method).or state.mergeMethod).getD default

def evaluateEligibility (state : AutoMergeState) : MergeEligibility :=
  if state.buildSucceeded = false then .buildInProgress
  else match state.commentMerge.filter (·.sha ≠ state.headSha) with
  | some drifted => .shaDrift drifted.sha state.headSha
  | none =>
    if state.autoMergeEnabled = false ∧ state.commentMerge = none then .notEnabled
    else if state.changedPackages = [] then .noChangedPackages
    else if state.commentMerge = none ∧ state.missingApprovals ≠ [] then .missingApprovals state.missingApprovals
    else
      let mergeMethod := state.methodOr "squash"
      if state.allowedMergeMethods ≠ [] ∧ mergeMethod ∉ state.allowedMergeMethods then
        .methodNotAllowed mergeMethod state.allowedMergeMethods
      else .eligible mergeMethod

end AutoMergeState

def MergeEligibility.method : MergeEligibility → Option String
  | .eligible mergeMethod => some mergeMethod
  | _ => none

structure Review where
  state : Option String
  login : Option String

/-- What the tables and the forge say about a pull request. -/
structure GatheredMerge where
  buildSucceeded : Bool
  request : PullRequest
  changedPackages : List String
  reviews : List Review
  /-- The names of the maintainers of a package. -/
  maintainers : String → List String
  /-- The methods that the settings of the repository allow. -/
  allowedMethods : List String

inductive MergeMethodCheck where
  | ok
  | notAllowed (allowed : List String)
  deriving DecidableEq, Repr

namespace GatheredMerge

variable (gathered : GatheredMerge)

def forge : Forge := gathered.request.repository.forge

def approvedReviews : List Review := gathered.reviews.filter (·.state = some "APPROVED")

def approvingUsernames : List String := gathered.approvedReviews.filterMap Review.login

def hasMaintainerApproval (package : String) : Bool :=
  (gathered.maintainers package).any (· ∈ gathered.approvingUsernames)

/-- The packages without an approval by one of their maintainers. -/
def missingApprovals : List String := gathered.changedPackages.filter (!gathered.hasMaintainerApproval ·)

/-- GitLab and Gitea consider all packages approved. -/
def checkMaintainerApprovals : Bool × List String :=
  match gathered.forge with
  | .gitHub =>
    if gathered.changedPackages = [] then (false, [])
    else if gathered.approvedReviews = [] then (false, gathered.changedPackages)
    else (gathered.changedPackages.all gathered.hasMaintainerApproval, gathered.missingApprovals)
  | _ => (true, [])

/-- GitLab and Gitea go by lists of their own. -/
def validateMergeMethod (method : String) : MergeMethodCheck :=
  match gathered.forge with
  | .gitHub => if gathered.allowedMethods.any (· = method) then .ok else .notAllowed gathered.allowedMethods
  | .gitea => if method ∈ ["merge", "rebase", "squash"] then .ok else .notAllowed ["merge", "rebase", "squash"]
  | .gitLab => if method ∈ ["merge", "rebase_merge", "ff"] then .ok else .notAllowed ["merge", "rebase_merge", "ff"]

def mergeMethod (pending : Option CommentMergeRequest) : String :=
  ((pending.bind CommentMergeRequest.method).or gathered.request.mergeMethod).getD gathered.forge.defaultMethod

/-- The answers that the service gets when it asks the forge. -/
def answers (pending : Option CommentMergeRequest) : ForgeAnswers where
  hasInstallation := true
  approvals := some gathered.checkMaintainerApprovals.1
  methodAllowed := some (gathered.validateMergeMethod (gathered.mergeMethod pending) = .ok)

/-- The evaluation of a service, from the reads on. -/
def checkAutoMerge : Except ServiceError AutoMergeOutcome :=
  if gathered.buildSucceeded = false then .ok .deferred
  else match gathered.request.activePath with
    | .error outcome => .ok outcome
    | .ok pending => gathered.request.decideMerge pending gathered.changedPackages (gathered.answers pending)

/-- The state of which the shared rules decide. -/
def state : AutoMergeState where
  autoMergeEnabled := gathered.request.autoMergeEnabled
  commentMerge := gathered.request.pendingCommentMerge.map fun pending => ⟨pending.sha, pending.method⟩
  headSha := gathered.request.headSha
  buildSucceeded := gathered.buildSucceeded
  changedPackages := gathered.changedPackages
  missingApprovals := gathered.missingApprovals
  mergeMethod := gathered.request.mergeMethod
  allowedMergeMethods := gathered.allowedMethods

end GatheredMerge

/-- The method that the call to a forge asks for. GitHub's takes another one for
squash, and GitLab's does not say any. -/
def Forge.requestedMethod : Forge → String → Option String
  | .gitHub, method => some (if method ∈ ["merge", "squash", "rebase"] then method else "squash")
  | .gitea, method => some method
  | .gitLab, _ => none

/-- The merge call that an evaluation makes, with the method that it asks for. -/
def Forge.mergeCall (forge : Forge) : Except ServiceError AutoMergeOutcome → Option (Option String)
  | .ok (.merge method _) => some (forge.requestedMethod method)
  | _ => none

namespace GatheredMerge

variable (gathered : GatheredMerge)

/-- The call is made exactly if the shared rules say so, for the method they say. -/
def MergesAsEligible : Prop :=
  gathered.forge.mergeCall gathered.checkAutoMerge = gathered.state.evaluateEligibility.method.map some

/-- The checks that come before the approvals. -/
structure Open : Prop where
  built : gathered.buildSucceeded = true
  pinned : ∀ pending, gathered.request.pendingCommentMerge = some pending → pending.sha = gathered.request.headSha
  active : gathered.request.autoMergeEnabled = true ∨ gathered.request.pendingCommentMerge ≠ none
  changes : gathered.changedPackages ≠ []

/-- By a comment, or by a maintainer of each package. -/
def Approved : Prop := gathered.request.pendingCommentMerge ≠ none ∨ gathered.missingApprovals = []

/-- The settings allow a method, or say nothing. -/
def Admits (method : String) : Prop := gathered.allowedMethods = [] ∨ method ∈ gathered.allowedMethods

/-- The rules of a service come to the same as the shared ones. -/
def RulesCoincide : Prop :=
  match gathered.forge with
  | .gitHub => gathered.Approved → gathered.allowedMethods ≠ [] ∧
      (gathered.state.methodOr "squash" ∈ gathered.allowedMethods →
        gathered.state.methodOr "squash" ∈ ["merge", "squash", "rebase"])
  | .gitea => gathered.state.methodOr "squash" ∈ ["merge", "rebase", "squash"] ↔
      gathered.Approved ∧ gathered.Admits (gathered.state.methodOr "squash")
  | .gitLab => gathered.state.methodOr "merge" ∉ ["merge", "rebase_merge", "ff"] ∧
      ¬ (gathered.Approved ∧ gathered.Admits (gathered.state.methodOr "squash"))

section Evaluations

variable {gathered : GatheredMerge}

theorem drift_eq_none : gathered.state.commentMerge.filter (·.sha ≠ gathered.state.headSha) = none ↔
    ∀ pending, gathered.request.pendingCommentMerge = some pending → pending.sha = gathered.request.headSha := by
  rw [Option.filter_eq_none_iff]
  constructor
  · intro none pending found
    have same := none _ (Option.map_eq_some_iff.mpr ⟨pending, found, rfl⟩)
    exact not_not.mp fun different => same (decide_eq_true different)
  · intro pinned asked found different
    obtain ⟨pending, pends, rfl⟩ := Option.map_eq_some_iff.mp found
    exact of_decide_eq_true different (pinned pending pends)

theorem evaluateEligibility_iff {method : String} :
    gathered.state.evaluateEligibility.method = some method ↔ gathered.Open ∧ gathered.Approved ∧
      gathered.Admits (gathered.state.methodOr "squash") ∧ gathered.state.methodOr "squash" = method := by
  rw [AutoMergeState.evaluateEligibility]
  by_cases built : gathered.state.buildSucceeded = false
  · rw [if_pos built]
    apply iff_of_false nofun
    rintro ⟨⟨succeeded, -⟩, -⟩
    exact absurd (succeeded.symm.trans built) nofun
  rw [if_neg built]
  cases drift : gathered.state.commentMerge.filter (·.sha ≠ gathered.state.headSha) with
  | some drifted =>
    apply iff_of_false nofun
    rintro ⟨⟨-, pinned, -⟩, -⟩
    rw [drift_eq_none.mpr pinned] at drift
    cases drift
  | none =>
    have pinned := drift_eq_none.mp drift
    have absent : gathered.state.commentMerge = none ↔ gathered.request.pendingCommentMerge = none :=
      Option.map_eq_none_iff
    dsimp only
    by_cases inactive : gathered.state.autoMergeEnabled = false ∧ gathered.state.commentMerge = none
    · rw [if_pos inactive]
      apply iff_of_false nofun
      rintro ⟨⟨-, -, enabled | asked, -⟩, -⟩
      · exact absurd (enabled.symm.trans inactive.1) nofun
      · exact asked (absent.mp inactive.2)
    have active : gathered.request.autoMergeEnabled = true ∨ gathered.request.pendingCommentMerge ≠ none := by
      rw [absent, not_and_or, Bool.not_eq_false] at inactive
      exact inactive
    rw [if_neg inactive]
    by_cases unchanged : gathered.state.changedPackages = []
    · rw [if_pos unchanged]
      apply iff_of_false nofun
      rintro ⟨⟨-, -, -, changes⟩, -⟩
      exact changes unchanged
    rw [if_neg unchanged]
    have isOpen : gathered.Open := ⟨Bool.eq_true_of_not_eq_false built, pinned, active, unchanged⟩
    by_cases missing : gathered.state.commentMerge = none ∧ gathered.state.missingApprovals ≠ []
    · rw [if_pos missing]
      apply iff_of_false nofun
      rintro ⟨-, asked | approved, -⟩
      · exact asked (absent.mp missing.1)
      · exact missing.2 approved
    have approved : gathered.Approved := by
      rw [absent, not_and_or, not_not] at missing
      exact missing
    rw [if_neg missing]
    by_cases refused : gathered.state.allowedMergeMethods ≠ [] ∧
        gathered.state.methodOr "squash" ∉ gathered.state.allowedMergeMethods
    · rw [if_pos refused]
      apply iff_of_false nofun
      rintro ⟨-, -, unrestricted | allowed, -⟩
      · exact refused.1 unrestricted
      · exact refused.2 allowed
    · rw [if_neg refused, MergeEligibility.method, Option.some.injEq]
      rw [not_and_or, not_not, not_not] at refused
      exact ⟨fun same => ⟨isOpen, approved, refused, same⟩, fun passed => passed.2.2.2⟩

theorem activePath_eq_ok {request : PullRequest} {path : Option CommentMergeRequest} :
    request.activePath = .ok path ↔ path = request.pendingCommentMerge ∧
      (∀ pending, request.pendingCommentMerge = some pending → pending.sha = request.headSha) ∧
      (request.autoMergeEnabled = true ∨ request.pendingCommentMerge ≠ none) := by
  rw [PullRequest.activePath]
  cases asked : request.pendingCommentMerge with
  | some pending =>
    dsimp only
    by_cases pinned : pending.sha = request.headSha
    · rw [if_neg (not_not.mpr pinned), Except.ok.injEq]
      constructor
      · rintro rfl
        exact ⟨rfl, fun other same => Option.some.inj same ▸ pinned, .inr (Option.some_ne_none pending)⟩
      · exact fun passed => passed.1.symm
    · rw [if_pos pinned]
      constructor
      · intro passed
        cases passed
      · exact fun passed => absurd (passed.2.1 pending rfl) pinned
  | none =>
    dsimp only
    cases enabled : request.autoMergeEnabled with
    | true =>
      rw [if_pos rfl, Except.ok.injEq]
      constructor
      · intro same
        refine ⟨same.symm, fun pending absent => ?_, .inl rfl⟩
        cases absent
      · exact fun passed => passed.1.symm
    | false =>
      rw [if_neg Bool.false_ne_true]
      constructor
      · intro passed
        cases passed
      · rintro ⟨-, -, absent | asked⟩
        · cases absent
        · exact absurd rfl asked

theorem mergeMethod_eq : gathered.mergeMethod gathered.request.pendingCommentMerge =
    gathered.state.methodOr gathered.forge.defaultMethod := by
  rw [mergeMethod, AutoMergeState.methodOr, state]
  cases gathered.request.pendingCommentMerge <;> rfl

theorem mergeCall_iff {requested : Option String} :
    gathered.forge.mergeCall gathered.checkAutoMerge = some requested ↔ gathered.Open ∧
      (gathered.request.pendingCommentMerge ≠ none ∨ gathered.checkMaintainerApprovals.1 = true) ∧
      gathered.validateMergeMethod (gathered.state.methodOr gathered.forge.defaultMethod) = .ok ∧
      gathered.forge.requestedMethod (gathered.state.methodOr gathered.forge.defaultMethod) = requested := by
  rw [checkAutoMerge]
  by_cases built : gathered.buildSucceeded = false
  · rw [if_pos built]
    apply iff_of_false nofun
    rintro ⟨⟨succeeded, -⟩, -⟩
    exact absurd (succeeded.symm.trans built) nofun
  rw [if_neg built]
  cases path : gathered.request.activePath with
  | error outcome =>
    apply iff_of_false
    · intro called
      cases outcome with
      | merge method pending => exact activePath_ne_merge path rfl
      | _ => cases called
    · rintro ⟨⟨-, pinned, active, -⟩, -⟩
      have ok := activePath_eq_ok.mpr ⟨rfl, pinned, active⟩
      rw [path] at ok
      cases ok
  | ok pending =>
    obtain ⟨rfl, pinned, active⟩ := activePath_eq_ok.mp path
    dsimp only [PullRequest.decideMerge, answers]
    by_cases unchanged : gathered.changedPackages = []
    · rw [if_pos unchanged]
      apply iff_of_false nofun
      rintro ⟨⟨-, -, -, changes⟩, -⟩
      exact changes unchanged
    have isOpen : gathered.Open := ⟨Bool.eq_true_of_not_eq_false built, pinned, active, unchanged⟩
    rw [if_neg unchanged, if_neg fun failed => absurd failed.2 nofun, mergeMethod_eq]
    by_cases missing : gathered.request.pendingCommentMerge = none ∧
        some gathered.checkMaintainerApprovals.1 = some false
    · rw [if_pos missing]
      apply iff_of_false nofun
      rintro ⟨-, asked | approved, -⟩
      · exact asked missing.1
      · exact absurd (approved.symm.trans (Option.some.inj missing.2)) nofun
    have approved : gathered.request.pendingCommentMerge ≠ none ∨ gathered.checkMaintainerApprovals.1 = true := by
      rw [not_and_or, Option.some.injEq, Bool.not_eq_false] at missing
      exact missing
    rw [if_neg missing]
    by_cases valid : gathered.validateMergeMethod (gathered.state.methodOr gathered.forge.defaultMethod) = .ok
    · have same : ((gathered.request.pendingCommentMerge.bind CommentMergeRequest.method).or
          gathered.request.mergeMethod).getD gathered.request.repository.forge.defaultMethod =
          gathered.state.methodOr gathered.forge.defaultMethod := mergeMethod_eq
      simp only [valid, decide_true, if_true, Forge.mergeCall, same, Option.some.injEq]
      exact ⟨fun same => ⟨isOpen, approved, trivial, same⟩, fun passed => passed.2.2.2⟩
    · simp only [valid, decide_false, Option.some.injEq, Bool.false_eq_true, if_false, Forge.mergeCall]
      exact iff_of_false nofun fun passed => passed.2.2.1

theorem approved_gitHub (gitHub : gathered.forge = .gitHub) (changes : gathered.changedPackages ≠ []) :
    gathered.checkMaintainerApprovals.1 = true ↔ gathered.missingApprovals = [] := by
  rw [checkMaintainerApprovals, gitHub]
  dsimp only
  rw [if_neg changes]
  have missing : gathered.missingApprovals = [] ↔
      ∀ package ∈ gathered.changedPackages, gathered.hasMaintainerApproval package = true := by
    simp [missingApprovals, List.filter_eq_nil_iff]
  split
  · rename_i none
    -- without an approval every changed package lacks one
    obtain ⟨package, changed⟩ := List.exists_mem_of_ne_nil _ changes
    apply iff_of_false nofun
    intro approved
    have approval := missing.mp approved package changed
    simp [hasMaintainerApproval, approvingUsernames, none] at approval
  · rw [missing, List.all_eq_true]

/-- Past the first checks, a service and the shared rules agree if they let the same
pass and the call asks for the method. -/
theorem mergesAsEligible_of_open (isOpen : gathered.Open) : gathered.MergesAsEligible ↔
    ((gathered.request.pendingCommentMerge ≠ none ∨ gathered.checkMaintainerApprovals.1 = true) ∧
        gathered.validateMergeMethod (gathered.state.methodOr gathered.forge.defaultMethod) = .ok ↔
      gathered.Approved ∧ gathered.Admits (gathered.state.methodOr "squash")) ∧
    (gathered.Approved ∧ gathered.Admits (gathered.state.methodOr "squash") →
      gathered.forge.requestedMethod (gathered.state.methodOr gathered.forge.defaultMethod) =
        some (gathered.state.methodOr "squash")) := by
  rw [MergesAsEligible, Option.ext_iff]
  simp only [mergeCall_iff, Option.map_eq_some_iff, evaluateEligibility_iff, isOpen, true_and]
  constructor
  · intro same
    have called := fun approved valid => (same _).mp ⟨approved, valid, rfl⟩
    have eligible := fun approved admits => (same _).mpr ⟨_, ⟨approved, admits, rfl⟩, rfl⟩
    constructor
    · constructor
      · rintro ⟨approved, valid⟩
        obtain ⟨_, ⟨shared, admits, _⟩, _⟩ := called approved valid
        exact ⟨shared, admits⟩
      · rintro ⟨approved, admits⟩
        obtain ⟨own, valid, _⟩ := eligible approved admits
        exact ⟨own, valid⟩
    · rintro ⟨approved, admits⟩
      exact (eligible approved admits).2.2
  · rintro ⟨same, asks⟩ requested
    constructor
    · rintro ⟨own, valid, rfl⟩
      obtain ⟨approved, admits⟩ := same.mp ⟨own, valid⟩
      exact ⟨_, ⟨approved, admits, rfl⟩, (asks ⟨approved, admits⟩).symm⟩
    · rintro ⟨_, ⟨approved, admits, rfl⟩, rfl⟩
      obtain ⟨own, valid⟩ := same.mpr ⟨approved, admits⟩
      exact ⟨own, valid, asks ⟨approved, admits⟩⟩

end Evaluations

/-- A service merges by the shared rules exactly if one of the first checks stops it,
or its own rules come to the same. -/
theorem mergesAsEligible_iff (gathered : GatheredMerge) :
    gathered.MergesAsEligible ↔ (gathered.Open → gathered.RulesCoincide) := by
  by_cases isOpen : gathered.Open
  · rw [mergesAsEligible_of_open isOpen, RulesCoincide]
    simp only [isOpen, forall_const]
    cases forge : gathered.forge with
    | gitHub =>
      have own : (gathered.request.pendingCommentMerge ≠ none ∨ gathered.checkMaintainerApprovals.1 = true) ↔
          gathered.Approved := by
        rw [approved_gitHub forge isOpen.changes, Approved]
      have valid : gathered.validateMergeMethod (gathered.state.methodOr "squash") = .ok ↔
          gathered.state.methodOr "squash" ∈ gathered.allowedMethods := by
        simp [validateMergeMethod, forge]
      have asks : Forge.gitHub.requestedMethod (gathered.state.methodOr "squash") =
          some (gathered.state.methodOr "squash") ↔ gathered.state.methodOr "squash" ∈ ["merge", "squash", "rebase"] := by
        rw [Forge.requestedMethod, Option.some.injEq]
        split
        · rename_i known
          exact iff_of_true rfl known
        · rename_i unknown
          exact iff_of_false (fun same => unknown (same ▸ by decide)) unknown
      simp only [Forge.defaultMethod, own, valid, asks, Admits]
      by_cases approved : gathered.Approved
      · by_cases listed : gathered.state.methodOr "squash" ∈ gathered.allowedMethods
        · simp [approved, listed, List.ne_nil_of_mem listed]
        · simp only [approved, listed, and_false, or_false, true_and, false_iff, false_imp_iff, and_true, forall_const]
          exact ⟨fun same => same.1, fun some => ⟨some, fun none => absurd none some⟩⟩
      · simp [approved]
    | gitea =>
      have own : gathered.checkMaintainerApprovals.1 = true := by rw [checkMaintainerApprovals, forge]
      have valid : gathered.validateMergeMethod (gathered.state.methodOr "squash") = .ok ↔
          gathered.state.methodOr "squash" ∈ ["merge", "rebase", "squash"] := by
        simp only [validateMergeMethod, forge]
        split <;> simp_all
      simp only [Forge.defaultMethod, Forge.requestedMethod, own, valid, or_true, true_and, implies_true, and_true]
    | gitLab =>
      have own : gathered.checkMaintainerApprovals.1 = true := by rw [checkMaintainerApprovals, forge]
      have valid : gathered.validateMergeMethod (gathered.state.methodOr "merge") = .ok ↔
          gathered.state.methodOr "merge" ∈ ["merge", "rebase_merge", "ff"] := by
        simp only [validateMergeMethod, forge]
        split <;> simp_all
      simp only [Forge.defaultMethod, Forge.requestedMethod, own, valid, or_true, true_and, reduceCtorEq, imp_false]
      tauto
  · simp only [isOpen, false_imp_iff, iff_true]
    rw [MergesAsEligible, Option.ext_iff]
    simp [mergeCall_iff, evaluateEligibility_iff, isOpen]

/-- A pull request of Gitea that its author wants to be merged, and nobody has reviewed. -/
def unreviewed : GatheredMerge where
  buildSucceeded := true
  request := ⟨.gitea "codeberg.org" "ekala" "corepkgs", 7, "c0ffee", some 1, true, some "merge", none, none, none, none,
    none, none⟩
  changedPackages := ["hello"]
  reviews := []
  maintainers _ := ["ada"]
  allowedMethods := ["merge", "rebase", "squash"]

theorem unreviewed_not_mergesAsEligible : ¬ unreviewed.MergesAsEligible := by
  rw [MergesAsEligible]
  decide

theorem handleCheckAutoMerge_eq {schema : Schema} {db : ForgeDatabase DrvId} {repository : Repository} {number : Nat}
    {gathered : GatheredMerge} (built : db.prHeadBuildSucceeded schema repository number = .ok gathered.buildSucceeded)
    (row : db.getPullRequestRow schema repository number = .ok (some gathered.request))
    (changed : db.getPrChangedPackages schema repository number = .ok gathered.changedPackages) :
    handleCheckAutoMerge schema db repository number (gathered.answers gathered.request.pendingCommentMerge) =
      gathered.checkAutoMerge := by
  have installed : ¬ (repository.forge = .gitHub ∧
      (gathered.answers gathered.request.pendingCommentMerge).hasInstallation = false) := by
    rintro ⟨-, absent⟩
    cases absent
  rw [handleCheckAutoMerge, if_neg installed, checkAutoMerge]
  simp only [built, bind, Except.bind, pure, Except.pure]
  cases gathered.buildSucceeded with
  | false => rfl
  | true =>
    simp only [row, Bool.not_true, Bool.false_eq_true, if_false, Bool.true_eq_false]
    cases path : gathered.request.activePath with
    | error outcome => rfl
    | ok pending =>
      obtain ⟨rfl, -⟩ := activePath_eq_ok.mp path
      simp only [changed]

end GatheredMerge

end EkaCI
