import EkaCI.Forge.MaintainerGrants

/-! The table of maintainers is keyed by the numbers of GitHub's users, and the
services of all forges ask it with the number of an account of their own. -/

namespace EkaCI

open Lib

variable {DrvId : Type}

/-- Gitea's answer; no permission if the lookup fails. -/
structure RepoPermission where
  canPush : Bool
  isAdmin : Bool

namespace RepoPermission

def checkRepoPermissionForUser : Option String → RepoPermission
  | some permission => ⟨permission ∈ ["admin", "write"], permission = "admin"⟩
  | none => ⟨false, false⟩

def hasWrite (permission : RepoPermission) : Bool := permission.canPush || permission.isAdmin

theorem hasWrite_iff {answer : Option String} : (checkRepoPermissionForUser answer).hasWrite = true ↔
    answer = some "admin" ∨ answer = some "write" := by
  cases answer with
  | none => simp [checkRepoPermissionForUser, hasWrite]
  | some permission =>
    simp only [checkRepoPermissionForUser, hasWrite, Bool.or_eq_true, decide_eq_true_eq, List.mem_cons,
      List.not_mem_nil, or_false, Option.some.injEq]
    tauto

end RepoPermission

/-- The access level of a member of a GitLab project. -/
def checkProjectPermissionForUser (accessLevel : Option Int) : Int := accessLevel.getD 0

/-- From developers on. -/
def hasDeveloperAccess (accessLevel : Int) : Bool := 30 ≤ accessLevel

theorem hasDeveloperAccess_iff {answer : Option Int} : hasDeveloperAccess (checkProjectPermissionForUser answer) = true ↔
    ∃ accessLevel, answer = some accessLevel ∧ 30 ≤ accessLevel := by
  cases answer with
  | none => simp [checkProjectPermissionForUser, hasDeveloperAccess]
  | some accessLevel =>
    simp only [checkProjectPermissionForUser, hasDeveloperAccess, Option.getD_some, Option.some.injEq, exists_eq_left']
    exact decide_eq_true_iff

/-- A merge request on some forge, next to the grants for GitHub's users. -/
structure IdentitySystem (DrvId : Type) where
  history : GrantHistory DrvId
  merges : MergeSystem DrvId

inductive IdentityAction (DrvId : Type) where
  | grant (action : GrantAction DrvId)
  | merge (action : MergeAction DrvId)

/-- What happens on the forge of the merge request. -/
def IdentityAction.ofForge : IdentityAction DrvId → Option (MergeAction DrvId)
  | .grant _ => none
  | .merge action => some action

/-- The tasks see the maintainers of the moment. -/
def MergeSystem.withMaintainers (merges : MergeSystem DrvId) (history : GrantHistory DrvId) : MergeSystem DrvId :=
  { merges with db := { merges.db with isMaintainer := history.forge.isMaintainer } }

namespace IdentitySystem

def start (history : GrantHistory DrvId) (db : ForgeDatabase DrvId) (head : String) : IdentitySystem DrvId :=
  ⟨history, (MergeSystem.start db head).withMaintainers history⟩

variable [DecidableEq DrvId] (schema : Schema) (fromStr : String → Option DrvId) (repository : Repository) (number : Nat)

def step (system : IdentitySystem DrvId) : IdentityAction DrvId → Option (IdentitySystem DrvId)
  | .grant action =>
    let history := system.history.perform schema fromStr action
    some ⟨history, system.merges.withMaintainers history⟩
  | .merge action =>
    (system.merges.step schema repository number action).map fun merges =>
      ⟨system.history, merges.withMaintainers system.history⟩

end IdentitySystem

structure ForgeAccount where
  forge : Forge
  id : Nat

/-- A maintainer was recorded for the account: the recorded numbers are GitHub's. -/
def GrantHistory.RecordedFor (history : GrantHistory DrvId) (account : ForgeAccount) (package : String) : Prop :=
  account.forge = .gitHub ∧ history.isMaintainer package account.id = true

def ForgeDatabase.anonymous (db : ForgeDatabase DrvId) : ForgeDatabase DrvId :=
  { db with isMaintainer := fun _ _ => false }

def Recording.anonymous (recording : Recording) : Recording := { recording with maintained := [] }

def TaskResult.anonymous (result : TaskResult DrvId) : TaskResult DrvId :=
  { result with db := result.db.anonymous, recorded := result.recorded.map Recording.anonymous }

/-- Everything but the maintainers. -/
def MergeSystem.anonymous (merges : MergeSystem DrvId) : MergeSystem DrvId :=
  { merges with db := merges.db.anonymous, recorded := merges.recorded.map Recording.anonymous }

/-- What is on its way to be recorded is so for write permission. -/
def TaskRun.Vetted : TaskRun → Prop
  | .pin _ hasWrite | .record _ hasWrite _ => hasWrite = true
  | _ => True

/-- The account and the packages that a task is about to ask the maintainers for. -/
def TaskRun.asked : TaskRun → Option (Nat × List String)
  | .checkMaintainer command changed => some (command.requesterId, changed)
  | .cancelCheckMaintainer requesterId changed => some (requesterId, changed)
  | _ => none

namespace IdentitySystem

/-- Merges are accepted from those who may write, or have been recorded under
their own identity for all that is changed. -/
def IdentitiesKept (forge : Forge) (system : IdentitySystem DrvId) : Prop :=
  ∀ recording ∈ system.merges.recorded, recording.hasWrite = false →
    ∀ package ∈ recording.packages, system.history.RecordedFor ⟨forge, recording.requesterId⟩ package

/-- The maintainers of all the packages that an account is asked for do not have its number: for
one of them no user of GitHub with that number has a grant. -/
def Apart (system : IdentitySystem DrvId) : IdentityAction DrvId → Prop
  | .merge (.task index _) => ∀ task ∈ system.merges.tasks[index]?, ∀ asked ∈ task.asked,
    asked.2 = [] ∨ ∃ package ∈ asked.2, ∀ grant ∈ system.history.maintainers,
      ¬(grant.attrPath = package ∧ grant.githubUserId = asked.1)
  | _ => True

instance (system : IdentitySystem DrvId) : (action : IdentityAction DrvId) → Decidable (system.Apart action)
  | .merge (.task index _) =>
    inferInstanceAs (Decidable (∀ task ∈ system.merges.tasks[index]?, ∀ asked ∈ task.asked, asked.2 = [] ∨
      ∃ package ∈ asked.2, ∀ grant ∈ system.history.maintainers, ¬(grant.attrPath = package ∧ grant.githubUserId = asked.1)))
  | .merge (.push _) | .merge (.storeMetadata _) | .merge (.webhook _) | .merge (.command _) | .merge (.cancelCommand _)
  | .merge .checkAutoMerge | .merge (.write _ _ _ _ _) | .merge (.setAutoMerge _ _) | .grant _ =>
    inferInstanceAs (Decidable True)

end IdentitySystem

/-- The lookup of the maintainers comes to nothing for a task. -/
def ForgeDatabase.Refuses (db : ForgeDatabase DrvId) (task : TaskRun) : Prop :=
  ∀ asked ∈ task.asked, db.isMaintainerOfAllPackages asked.1 asked.2 = false

section Tasks

variable {schema : Schema} {repository : Repository} {number : Nat} {db : ForgeDatabase DrvId} {task next : TaskRun}

theorem TaskRun.Vetted.leads (vetted : task.Vetted) (refused : db.Refuses task) {answers : TaskAnswers}
    (leads : task.Leads schema repository number db answers next) : next.Vetted := by
  cases leads with
  | mayWrite => exact rfl
  | maintains command changed all =>
    rw [refused (command.requesterId, changed) rfl] at all
    cases all
  | pins => exact vetted
  | _ => trivial

theorem anonymous_afterRead {A : Type} (read : Except ServiceError A) (next : A → List TaskRun) :
    (TaskRun.afterRead db read next).anonymous = TaskRun.afterRead db.anonymous read next := by
  cases read <;> rfl

theorem anonymous_upsertPullRequest (head : String) :
    (db.upsertPullRequest repository number head).anonymous = db.anonymous.upsertPullRequest repository number head := by
  rw [ForgeDatabase.upsertPullRequest, ForgeDatabase.upsertPullRequest]
  have same : db.anonymous.findRequest repository number = db.findRequest repository number := rfl
  rw [same]
  split <;> rfl

theorem anonymous_webhook (webhook : WebhookRun) :
    ((webhook.advance schema repository number db).1.anonymous, (webhook.advance schema repository number db).2) =
      webhook.advance schema repository number db.anonymous := by
  cases webhook with
  | store head synchronize => rw [WebhookRun.advance, WebhookRun.advance, anonymous_upsertPullRequest]
  | checkDrift head =>
    have same : db.anonymous.getPullRequestRow schema repository number =
        db.getPullRequestRow schema repository number := rfl
    rw [WebhookRun.advance, WebhookRun.advance, same]
    split
    · rfl
    · split <;> rfl
  | clear => rfl

theorem anonymous_refuses (task : TaskRun) : db.anonymous.Refuses task := by
  intro asked _
  rw [ForgeDatabase.isMaintainerOfAllPackages, decide_eq_false_iff_not]
  rintro ⟨some_, all⟩
  obtain ⟨package, member⟩ := List.exists_mem_of_ne_nil _ some_
  cases List.all_eq_true.mp all package member

theorem ForgeDatabase.Refuses.advance_anonymous (refused : db.Refuses task) (head : String) (answers : TaskAnswers) :
    (task.advance schema repository number db head answers).anonymous =
      task.advance schema repository number db.anonymous head answers := by
  cases task with
  | authorize command | cancelAuthorize requesterId =>
    have same : TaskRun.changedOrNone schema repository number db.anonymous =
        TaskRun.changedOrNone schema repository number db := rfl
    rw [TaskRun.advance, TaskRun.advance, same]
    split <;> rfl
  | checkMaintainer command changed =>
    rw [TaskRun.advance, TaskRun.advance, refused (command.requesterId, changed) rfl,
      anonymous_refuses (.checkMaintainer command changed) (command.requesterId, changed) rfl]
    rfl
  | cancelCheckMaintainer requesterId changed =>
    rw [TaskRun.advance, TaskRun.advance, refused (requesterId, changed) rfl,
      anonymous_refuses (.cancelCheckMaintainer requesterId changed) (requesterId, changed) rfl]
    rfl
  | pin command hasWrite | cancel requesterId | readRow | readChanged request pending => exact anonymous_afterRead _ _
  | record command hasWrite sha =>
    have same : db.anonymous.findRequest repository number = db.findRequest repository number := rfl
    rw [TaskRun.advance, TaskRun.advance, same]
    split
    · have nobody : (db.anonymous.newOrChangedPackages repository sha).filter
          (db.anonymous.isMaintainer command.requesterId) = [] :=
        List.filter_eq_nil_iff.mpr fun _ _ => Bool.false_ne_true
      rw [nobody]
      rfl
    · rfl
  | cancelClear | cancelDrifted | markMerged => rfl
  | checkAutoMerge =>
    rw [TaskRun.advance, TaskRun.advance]
    split
    · exact anonymous_afterRead _ _
    · rfl
  | merge method pending =>
    rw [TaskRun.advance, TaskRun.advance]
    split <;> rfl

end Tasks

/-- All tasks are vetted, and all that was recorded was so for write permission. -/
structure MergeSystem.Vetted (merges : MergeSystem DrvId) : Prop where
  tasks : ∀ task ∈ merges.tasks, task.Vetted
  recorded : ∀ recording ∈ merges.recorded, recording.hasWrite = true

/-- A task that is handled is refused as a maintainer. -/
def MergeSystem.Refuses (merges : MergeSystem DrvId) : MergeAction DrvId → Prop
  | .task index _ => ∀ task ∈ merges.tasks[index]?, merges.db.Refuses task
  | _ => True

namespace MergeSystem

variable {schema : Schema} {repository : Repository} {number : Nat} {merges next : MergeSystem DrvId}
  {action : MergeAction DrvId}

theorem Vetted.queue (vetted : merges.Vetted) {task : TaskRun} (fresh : task.Vetted) :
    Vetted { merges with tasks := merges.tasks ++ [task] } where
  tasks other member := by
    obtain earlier | now := mem_snoc.mp member
    · exact vetted.tasks other earlier
    · rw [now]
      exact fresh
  recorded := vetted.recorded

theorem Vetted.step (vetted : merges.Vetted) (refused : merges.Refuses action)
    (taken : MergeSystem.step schema repository number merges action = some next) : next.Vetted := by
  cases action with
  | push head | storeMetadata head | setAutoMerge enabled method =>
    cases Option.some.inj taken
    exact ⟨vetted.tasks, vetted.recorded⟩
  | write jobsets jobs buildState differences isMaintainer =>
    cases Option.some.inj taken
    exact ⟨vetted.tasks, vetted.recorded⟩
  | webhook index =>
    obtain ⟨webhook, -, rfl⟩ := Option.map_eq_some_iff.mp taken
    exact ⟨vetted.tasks, vetted.recorded⟩
  | command command | cancelCommand requesterId | checkAutoMerge =>
    cases Option.some.inj taken
    exact vetted.queue trivial
  | task index answers =>
    obtain ⟨task, found, rfl⟩ := Option.map_eq_some_iff.mp taken
    have before := vetted.tasks task (List.mem_of_getElem? found)
    obtain ⟨recorded, -⟩ := advance_outcomes schema repository number merges.db merges.head answers task
    constructor
    · intro other member
      obtain earlier | now := List.mem_append.mp member
      · exact vetted.tasks other (List.mem_of_mem_eraseIdx earlier)
      · exact before.leads (refused task found) (leads_of_mem_next now)
    · intro recording member
      obtain earlier | now := List.mem_append.mp member
      · exact vetted.recorded recording earlier
      · obtain ⟨command, hasWrite, sha, rfl, rfl⟩ := recorded recording now
        exact before

/-- A step, as it goes without the maintainers. -/
def anonymousStep (schema : Schema) (repository : Repository) (number : Nat) (merges : MergeSystem DrvId)
    (action : MergeAction DrvId) : Option (MergeSystem DrvId) := (step schema repository number merges action).map anonymous

theorem anonymous_withMaintainers (merges : MergeSystem DrvId) (history : GrantHistory DrvId) :
    (merges.withMaintainers history).anonymous = merges.anonymous := rfl

theorem anonymous_recorded (recorded : List Recording) :
    (recorded.map Recording.anonymous).map Recording.anonymous = recorded.map Recording.anonymous :=
  List.map_map

theorem anonymousStep_of_step (refused : merges.Refuses action)
    (taken : MergeSystem.step schema repository number merges action = some next) :
    anonymousStep schema repository number merges.anonymous action = some next.anonymous := by
  cases action with
  | push head | storeMetadata head | setAutoMerge enabled method | command command | cancelCommand requesterId
  | checkAutoMerge =>
    cases Option.some.inj taken
    simp only [MergeSystem.anonymousStep, MergeSystem.step, Option.map_some, anonymous, anonymous_recorded]
    rfl
  | write jobsets jobs buildState differences isMaintainer =>
    cases Option.some.inj taken
    simp only [MergeSystem.anonymousStep, MergeSystem.step, Option.map_some, anonymous, anonymous_recorded]
    rfl
  | webhook index =>
    obtain ⟨webhook, found, rfl⟩ := Option.map_eq_some_iff.mp taken
    have kept := @anonymous_webhook _ schema repository number merges.db webhook
    simp only [MergeSystem.anonymousStep, MergeSystem.step, anonymous, found, Option.map_some, anonymous_recorded,
      ← kept]
    rfl
  | task index answers =>
    obtain ⟨task, found, rfl⟩ := Option.map_eq_some_iff.mp taken
    have kept := @ForgeDatabase.Refuses.advance_anonymous _ schema repository number merges.db task (refused task found)
      merges.head answers
    simp only [MergeSystem.anonymousStep, MergeSystem.step, anonymous, found, Option.map_some, ← kept,
      List.map_append, TaskResult.anonymous, anonymous_recorded]
    rfl

end MergeSystem

namespace IdentitySystem

variable [DecidableEq DrvId] {schema : Schema} {fromStr : String → Option DrvId} {repository : Repository} {number : Nat}
  {system next : IdentitySystem DrvId} {action : IdentityAction DrvId}

/-- The tasks see the maintainers that there are, and all of them are vetted. -/
structure Kept (system : IdentitySystem DrvId) : Prop where
  maintainers : system.merges.db.isMaintainer = system.history.forge.isMaintainer
  vetted : system.merges.Vetted

omit [DecidableEq DrvId] in
theorem Kept.refuses (kept : system.Kept) {action : MergeAction DrvId} (apart : system.Apart (.merge action)) :
    system.merges.Refuses action := by
  cases action with
  | task index answers =>
    intro task found asked about
    rw [ForgeDatabase.isMaintainerOfAllPackages, decide_eq_false_iff_not]
    rintro ⟨some_, all⟩
    obtain none | ⟨package, member, nobody⟩ := apart task found asked about
    · exact some_ none
    · have maintained := List.all_eq_true.mp all package member
      rw [kept.maintainers] at maintained
      obtain ⟨grant, given, same⟩ := List.any_eq_true.mp maintained
      exact nobody grant given (of_decide_eq_true same)
  | _ => trivial

theorem Kept.step (kept : system.Kept) (apart : system.Apart action)
    (taken : step schema fromStr repository number system action = some next) : next.Kept := by
  cases action with
  | grant action =>
    cases Option.some.inj taken
    exact ⟨rfl, ⟨kept.vetted.tasks, kept.vetted.recorded⟩⟩
  | merge action =>
    obtain ⟨merges, moved, rfl⟩ := Option.map_eq_some_iff.mp taken
    have vetted := kept.vetted.step (kept.refuses apart) moved
    exact ⟨rfl, ⟨vetted.tasks, vetted.recorded⟩⟩

omit [DecidableEq DrvId] in
theorem kept_start (history : GrantHistory DrvId) (db : ForgeDatabase DrvId) (head : String) : (start history db head).Kept :=
  ⟨rfl, ⟨List.forall_mem_nil _, List.forall_mem_nil _⟩⟩

theorem exec_anonymous {history : GrantHistory DrvId} {db : ForgeDatabase DrvId} {head : String}
    {actions : List (IdentityAction DrvId)} {final : IdentitySystem DrvId}
    (run : Run (step schema fromStr repository number) Apart (start history db head) actions final) :
    exec (MergeSystem.anonymousStep schema repository number) (start history db head).merges.anonymous
      (actions.filterMap IdentityAction.ofForge) = some final.merges.anonymous := by
  refine run.exec_view (p := Kept) (fun system => system.merges.anonymous) (kept_start history db head) ?_ ?_ ?_
  · exact fun system action next kept apart taken => kept.step apart taken
  · intro system action next _ _ taken hidden
    cases action with
    | grant action =>
      cases Option.some.inj taken
      exact MergeSystem.anonymous_withMaintainers _ _
    | merge action => cases hidden
  · intro system action next shown kept apart taken seen
    cases action with
    | grant action => cases seen
    | merge action =>
      cases Option.some.inj seen
      obtain ⟨merges, moved, rfl⟩ := Option.map_eq_some_iff.mp taken
      rw [MergeSystem.anonymous_withMaintainers]
      exact MergeSystem.anonymousStep_of_step (kept.refuses apart) moved

/-- While the numbers of those who are asked for are apart from those of the maintainers, no account
of another forge is taken for a user of GitHub, and whatever is granted to the users of GitHub, under
whatever numbers, its commands come to the same. -/
theorem run_keepsIdentities (schema : Schema) (fromStr : String → Option DrvId) (repository : Repository) (number : Nat)
    (history : GrantHistory DrvId) (db : ForgeDatabase DrvId) (head : String)
    {actions : List (IdentityAction DrvId)} {final : IdentitySystem DrvId}
    (run : Run (step schema fromStr repository number) Apart (start history db head) actions final) :
    final.IdentitiesKept repository.forge ∧
      ∀ (otherHistory : GrantHistory DrvId) (others : List (IdentityAction DrvId)) (otherFinal : IdentitySystem DrvId),
        Run (step schema fromStr repository number) Apart (start otherHistory db head) others otherFinal →
        others.filterMap IdentityAction.ofForge = actions.filterMap IdentityAction.ofForge →
        otherFinal.merges.anonymous = final.merges.anonymous := by
  constructor
  · have kept : final.Kept := run.invariant (kept_start history db head) fun system action next kept apart taken =>
      kept.step apart taken
    intro recording member readOnly
    rw [kept.vetted.recorded recording member] at readOnly
    cases readOnly
  · intro otherHistory others otherFinal otherRun same
    have first := exec_anonymous run
    have second := exec_anonymous otherRun
    rw [same] at second
    exact Option.some.inj (second.symm.trans first)

/-! ada is user 5 of GitHub; on the instance of Gitea number 5 is somebody else. -/

def instanceRepository : Repository := .gitea "git.example" "ekala" "corepkgs"

def changedOnInstance : ForgeDatabase Nat where
  requests := [⟨instanceRepository, 7, "c0ffee", none, false, none, none, none, none, none, none, none⟩]
  jobsets := [⟨1, "c0ffee", "stable", instanceRepository⟩]
  jobs
    | .gitea => [⟨1, 10, "hello", .changed⟩]
    | _ => []
  buildState _ := .building
  differences := [⟨1, "hello", .changed⟩]
  isMaintainer _ _ := false

/-- The answers to a task for an account with the permission that Gitea names. -/
def answersFor (permission : Option String) : TaskAnswers :=
  ⟨some (RepoPermission.checkRepoPermissionForUser permission).hasWrite, true, ⟨true, none, some true⟩, true⟩

/-- An admin makes the user of a number a maintainer. -/
def grantTo (githubId : Nat) : List (IdentityAction Nat) :=
  [.grant (.signIn ⟨githubId, "ada"⟩), .grant (.signIn ⟨1, "root"⟩),
    .grant (.addMaintainerByUsername ⟨⟨1, true⟩, rfl⟩ "hello" "ada")]

/-- An account asks for a merge, which takes four steps at most. -/
def commandOf (requesterId : Nat) (permission : Option String) (steps : Nat) : List (IdentityAction Nat) :=
  .merge (.command ⟨requesterId, "mallory", 71, none⟩) :: List.replicate steps (.merge (.task 0 (answersFor permission)))

/-- Account 5 may read, and account 9 may write. -/
def commandsOnInstance : List (IdentityAction Nat) := commandOf 5 (some "read") 2 ++ commandOf 9 (some "write") 3

/-- Who holds the number 6 or 7 on GitHub changes nothing. -/
theorem grantOfSix_keepsIdentities : ∃ final otherFinal,
    Run (step .completed (fun _ => none) instanceRepository 7) Apart
      (start (.start fun _ => .queued) changedOnInstance "c0ffee") (grantTo 6 ++ commandsOnInstance) final ∧
    Run (step .completed (fun _ => none) instanceRepository 7) Apart
      (start (.start fun _ => .queued) changedOnInstance "c0ffee") (grantTo 7 ++ commandsOnInstance) otherFinal ∧
    final.history.isMaintainer "hello" 6 = true ∧ otherFinal.history.isMaintainer "hello" 6 = false ∧
    final.merges.recorded = [⟨"c0ffee", 9, true, ["hello"], []⟩] ∧ final.IdentitiesKept .gitea ∧
    otherFinal.merges.anonymous = final.merges.anonymous := by
  obtain ⟨final, run, granted, recorded⟩ : ∃ final,
      Run (step .completed (fun _ => none) instanceRepository 7) Apart
        (start (.start fun _ => .queued) changedOnInstance "c0ffee") (grantTo 6 ++ commandsOnInstance) final ∧
      final.history.isMaintainer "hello" 6 = true ∧ final.merges.recorded = [⟨"c0ffee", 9, true, ["hello"], []⟩] :=
    exists_run_of_checkRun (by decide)
  obtain ⟨otherFinal, otherRun, otherGranted⟩ : ∃ otherFinal,
      Run (step .completed (fun _ => none) instanceRepository 7) Apart
        (start (.start fun _ => .queued) changedOnInstance "c0ffee") (grantTo 7 ++ commandsOnInstance) otherFinal ∧
      otherFinal.history.isMaintainer "hello" 6 = false := exists_run_of_checkRun (by decide)
  obtain ⟨kept, same⟩ := run_keepsIdentities .completed (fun _ => none) instanceRepository 7 _ _ _ run
  exact ⟨final, otherFinal, run, otherRun, granted, otherGranted, recorded, kept, same _ _ _ otherRun rfl⟩

/-- The grant to GitHub's user 5 lets account 5 of the instance merge. -/
theorem grantOfFive_not_kept : ∃ final,
    AnyRun (step .completed (fun _ => none) instanceRepository 7)
      (start (.start fun _ => .queued) changedOnInstance "c0ffee") (grantTo 5 ++ commandOf 5 (some "read") 4) final ∧
    ¬final.IdentitiesKept .gitea := by
  refine exists_run_of_exec_imp (p := fun final => final.merges.recorded = [⟨"c0ffee", 5, false, ["hello"], ["hello"]⟩])
    (by decide) fun final run recorded kept => ?_
  obtain ⟨gitHub, -⟩ := kept ⟨"c0ffee", 5, false, ["hello"], ["hello"]⟩ (by rw [recorded]; exact List.mem_singleton_self _)
    rfl "hello" (List.mem_singleton_self _)
  cases gitHub

end IdentitySystem

end EkaCI
