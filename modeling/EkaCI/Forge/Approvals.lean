import EkaCI.Channels.Registry
import EkaCI.Forge.Eligibility
import EkaCI.Forge.MaintainerGrants

/-! Whether every package that a pull request on GitHub changes has been approved by one
of its maintainers. The reviews are read one page deep, and any approval among them counts. -/

namespace EkaCI

open Lib

/-- A row of `AttrPathMaintainers`, as far as the query reads it. -/
structure MaintainerRow where
  attrPath : String
  githubUserId : Nat
  addedAt : Nat

structure ApprovalTables where
  users : List AuthenticatedUser
  maintainers : List MaintainerRow

namespace ApprovalTables

/-- The user names of the maintainers, the oldest row first. -/
def getMaintainersForAttrPath (tables : ApprovalTables) (attrPath : String) : List String :=
  ((tables.maintainers.filter (·.attrPath = attrPath)).insertionSort (·.addedAt ≤ ·.addedAt)).flatMap fun row =>
    (tables.users.filter (·.githubId = row.githubUserId)).map AuthenticatedUser.githubUsername

/-- The user of this name maintains the package. -/
def IsMaintainer (tables : ApprovalTables) (package name : String) : Prop :=
  ∃ row ∈ tables.maintainers, row.attrPath = package ∧
    ∃ user ∈ tables.users, user.githubId = row.githubUserId ∧ user.githubUsername = name

theorem mem_getMaintainersForAttrPath {tables : ApprovalTables} {package name : String} :
    name ∈ tables.getMaintainersForAttrPath package ↔ tables.IsMaintainer package name := by
  have listed : ∀ row, row ∈ (tables.maintainers.filter (·.attrPath = package)).insertionSort (·.addedAt ≤ ·.addedAt) ↔
      row ∈ tables.maintainers ∧ row.attrPath = package := by
    intro row
    rw [(List.perm_insertionSort _ _).mem_iff, List.mem_filter, decide_eq_true_iff]
  simp only [getMaintainersForAttrPath, IsMaintainer, List.mem_flatMap, listed, List.mem_map, List.mem_filter,
    decide_eq_true_eq, and_assoc]

end ApprovalTables

/-- The answer of the forge is a page, of which there may be more. -/
def getPrReviews (page : Nat) (reviews : List Review) : List Review := reviews.take page

namespace ApprovalTables

/-- One pass of the loop over the packages. -/
def checkPackage (tables : ApprovalTables) (approvingUsernames : List String)
    (checked : Bool × List (String × List String)) (package : String) : Bool × List (String × List String) :=
  let usernames := tables.getMaintainersForAttrPath package
  if usernames.any (· ∈ approvingUsernames) then checked else (false, checked.2 ++ [(package, usernames)])

def checkPrMaintainerApprovals (tables : ApprovalTables) (page : Nat) (reviews : List Review)
    (changedPackages : List String) : Bool × (String → Option (List String)) :=
  if changedPackages = [] then (false, collect [])
  else
    let approvedReviews := (getPrReviews page reviews).filter (·.state = some "APPROVED")
    if approvedReviews = [] then (false, collect (changedPackages.map fun package => (package, [])))
    else
      let checked := changedPackages.foldl (tables.checkPackage (approvedReviews.filterMap Review.login)) (true, [])
      (checked.1, collect checked.2)

end ApprovalTables

/-- A comment leaves the decision of its author as it is. -/
def Review.decides (login : String) (review : Review) : Bool :=
  review.login.any (eqIgnoreAsciiCase login) && review.state.any (· ∈ ["APPROVED", "CHANGES_REQUESTED", "DISMISSED"])

/-- The last decision of the account, whose name is compared as GitHub does, is an approval. -/
def StandsApproved (reviews : List Review) (login : String) : Prop :=
  (reviews.filter (·.decides login)).getLast?.bind Review.state = some "APPROVED"

instance (reviews : List Review) (login : String) : Decidable (StandsApproved reviews login) :=
  inferInstanceAs (Decidable (_ = _))

namespace ApprovalTables

def Approved (tables : ApprovalTables) (reviews : List Review) (package : String) : Prop :=
  ∃ name, tables.IsMaintainer package name ∧ StandsApproved reviews name

/-- What the check reports, of all packages and of each. -/
structure CountsLatest (tables : ApprovalTables) (page : Nat) (reviews : List Review) (changedPackages : List String) :
    Prop where
  eligible : (tables.checkPrMaintainerApprovals page reviews changedPackages).1 = true ↔
    changedPackages ≠ [] ∧ ∀ package ∈ changedPackages, tables.Approved reviews package
  missing : ∀ package, ((tables.checkPrMaintainerApprovals page reviews changedPackages).2 package).isSome ↔
    package ∈ changedPackages ∧ ¬ tables.Approved reviews package

/-- An approval of a maintainer of the package, with the reviews before and after it. -/
structure ApprovalOf (tables : ApprovalTables) (reviews : List Review) (package name : String) (before after : List Review)
    (review : Review) : Prop where
  maintainer : tables.IsMaintainer package name
  listed : reviews = before ++ review :: after
  approves : review.state = some "APPROVED"
  own : review.login.any (eqIgnoreAsciiCase name) = true

/-- It is within the first page, under the very name that is stored. -/
def InView (page : Nat) (name : String) (before : List Review) (review : Review) : Prop :=
  before.length < page ∧ review.login = some name

/-- The account decides again later. -/
def Superseded (name : String) (after : List Review) : Prop := ∃ later ∈ after, later.decides name = true

/-- Where an approval in view is superseded, another one is not, of whatever maintainer; and where
one that is not superseded is out of view, another one is in view. -/
structure Countable (tables : ApprovalTables) (page : Nat) (reviews : List Review) (package : String) : Prop where
  superseded : ∀ name before after review, tables.ApprovalOf reviews package name before after review →
    InView page name before review → Superseded name after →
      ∃ name before after review, tables.ApprovalOf reviews package name before after review ∧ ¬ Superseded name after
  unseen : ∀ name before after review, tables.ApprovalOf reviews package name before after review →
    ¬ Superseded name after → ¬ InView page name before review →
      ∃ name before after review, tables.ApprovalOf reviews package name before after review ∧ InView page name before review

/-- A maintainer has approved at some time, under the very name that is stored, within
the first page. -/
def Signed (tables : ApprovalTables) (page : Nat) (reviews : List Review) (package : String) : Prop :=
  ∃ name, tables.IsMaintainer package name ∧
    ∃ review ∈ reviews.take page, review.state = some "APPROVED" ∧ review.login = some name

variable {tables : ApprovalTables} {page : Nat} {reviews : List Review} {changedPackages : List String}

theorem foldl_checkPackage (approving : List String) (packages : List String)
    (checked : Bool × List (String × List String)) :
    packages.foldl (tables.checkPackage approving) checked =
      (checked.1 && packages.all fun package => (tables.getMaintainersForAttrPath package).any (· ∈ approving),
        checked.2 ++ (packages.filter fun package =>
          !(tables.getMaintainersForAttrPath package).any (· ∈ approving)).map fun package =>
            (package, tables.getMaintainersForAttrPath package)) := by
  induction packages generalizing checked with
  | nil => simp
  | cons package rest ih =>
    rw [List.foldl_cons, ih, checkPackage]
    by_cases approved : (tables.getMaintainersForAttrPath package).any (· ∈ approving) = true
    · simp [approved]
    · simp [Bool.not_eq_true _ |>.mp approved]

variable {package : String}

theorem any_approving_iff :
    ((tables.getMaintainersForAttrPath package).any
      (· ∈ ((getPrReviews page reviews).filter (·.state = some "APPROVED")).filterMap Review.login)) = true ↔
        tables.Signed page reviews package := by
  simp only [List.any_eq_true, decide_eq_true_eq, mem_getMaintainersForAttrPath, List.mem_filterMap, List.mem_filter,
    getPrReviews, Signed, and_assoc]

theorem not_signed_of_none (none : (getPrReviews page reviews).filter (·.state = some "APPROVED") = []) :
    ¬ tables.Signed page reviews package := by
  rw [← any_approving_iff, none]
  simp

theorem isSome_collect_map {packages : List String} {names : String → List String} :
    (collect (packages.map fun package => (package, names package)) package).isSome ↔ package ∈ packages := by
  constructor
  · intro found
    obtain ⟨usernames, same⟩ := Option.isSome_iff_exists.mp found
    obtain ⟨_, member, ⟨⟩⟩ := List.mem_map.mp (mem_of_collect same)
    exact member
  · intro member
    obtain ⟨_, same⟩ := collect_of_mem (List.mem_map_of_mem (f := fun package => (package, names package)) member)
    exact Option.isSome_iff_exists.mpr ⟨_, same⟩

theorem checkPrMaintainerApprovals_fst : (tables.checkPrMaintainerApprovals page reviews changedPackages).1 = true ↔
    changedPackages ≠ [] ∧ ∀ package ∈ changedPackages, tables.Signed page reviews package := by
  unfold checkPrMaintainerApprovals
  by_cases empty : changedPackages = []
  · simp [empty]
  · rw [if_neg empty]
    by_cases none : (getPrReviews page reviews).filter (·.state = some "APPROVED") = []
    · rw [if_pos none]
      obtain ⟨package, member⟩ := List.exists_mem_of_ne_nil _ empty
      exact ⟨fun approved => absurd approved Bool.false_ne_true,
        fun signed => absurd (signed.2 package member) (not_signed_of_none none)⟩
    · rw [if_neg none]
      simp only [foldl_checkPackage, Bool.true_and, List.all_eq_true, any_approving_iff]
      exact ⟨fun all => ⟨empty, all⟩, fun signed => signed.2⟩

theorem checkPrMaintainerApprovals_snd :
    ((tables.checkPrMaintainerApprovals page reviews changedPackages).2 package).isSome ↔
      package ∈ changedPackages ∧ ¬ tables.Signed page reviews package := by
  unfold checkPrMaintainerApprovals
  by_cases empty : changedPackages = []
  · rw [if_pos empty, empty]
    exact ⟨nofun, nofun⟩
  · rw [if_neg empty]
    by_cases none : (getPrReviews page reviews).filter (·.state = some "APPROVED") = []
    · rw [if_pos none, isSome_collect_map]
      exact ⟨fun member => ⟨member, not_signed_of_none none⟩, And.left⟩
    · rw [if_neg none, foldl_checkPackage, List.nil_append, isSome_collect_map, List.mem_filter, Bool.not_eq_true',
        ← Bool.not_eq_true, any_approving_iff]

theorem checkMaintainerApprovals_eq {gathered : GatheredMerge} (gitHub : gathered.forge = .gitHub)
    (read : gathered.reviews = getPrReviews page reviews)
    (maintainers : gathered.maintainers = tables.getMaintainersForAttrPath) :
    gathered.checkMaintainerApprovals.1 =
      (tables.checkPrMaintainerApprovals page reviews gathered.changedPackages).1 := by
  rw [GatheredMerge.checkMaintainerApprovals, gitHub, checkPrMaintainerApprovals]
  by_cases empty : gathered.changedPackages = []
  · rw [if_pos empty, if_pos empty]
  · have approvals : gathered.approvedReviews = (getPrReviews page reviews).filter (·.state = some "APPROVED") := by
      rw [GatheredMerge.approvedReviews, read]
    dsimp only
    rw [if_neg empty, if_neg empty, approvals]
    by_cases none : (getPrReviews page reviews).filter (·.state = some "APPROVED") = []
    · rw [if_pos none, if_pos none]
    · rw [if_neg none, if_neg none, foldl_checkPackage, Bool.true_and, ← approvals, ← maintainers]
      rfl

theorem signed_iff : tables.Signed page reviews package ↔ ∃ name before after review,
    tables.ApprovalOf reviews package name before after review ∧ InView page name before review := by
  constructor
  · rintro ⟨name, maintains, review, listed, approves, own⟩
    obtain ⟨before, rest, split⟩ := List.append_of_mem listed
    have short : before.length < page := by
      have bound : (reviews.take page).length ≤ page := List.length_take_le _ _
      rw [split, List.length_append, List.length_cons] at bound
      omega
    refine ⟨name, before, rest ++ reviews.drop page, review, ⟨maintains, ?_, approves, ?_⟩, short, own⟩
    · rw [← List.cons_append, ← List.append_assoc, ← split, List.take_append_drop]
    · rw [own]
      exact eqIgnoreAsciiCase_refl name
  · rintro ⟨name, before, after, review, ⟨maintains, split, approves, -⟩, short, own⟩
    refine ⟨name, maintains, review, ?_, approves, own⟩
    rw [split, List.take_append, List.mem_append]
    obtain ⟨room, more⟩ := Nat.exists_eq_succ_of_ne_zero (Nat.sub_ne_zero_of_lt short)
    rw [more, List.take_succ_cons]
    exact .inr List.mem_cons_self

theorem approved_iff : tables.Approved reviews package ↔ ∃ name before after review,
    tables.ApprovalOf reviews package name before after review ∧ ¬ Superseded name after := by
  constructor
  · rintro ⟨name, maintains, stands⟩
    rw [StandsApproved, List.getLast?_filter] at stands
    obtain ⟨review, found, approves⟩ := Option.bind_eq_some_iff.mp stands
    obtain ⟨decides, after, before, split, others⟩ := List.find?_eq_some_iff_append.mp found
    refine ⟨name, before.reverse, after.reverse, review, ⟨maintains, ?_, approves, (Bool.and_eq_true_iff.mp decides).1⟩, ?_⟩
    · rw [← List.reverse_reverse reviews, split]
      simp
    · rintro ⟨later, member, again⟩
      have never := others later (List.mem_reverse.mp member)
      rw [again] at never
      cases never
  · rintro ⟨name, before, after, review, ⟨maintains, split, approves, own⟩, last⟩
    refine ⟨name, maintains, ?_⟩
    have found : reviews.reverse.find? (·.decides name) = some review := by
      refine List.find?_eq_some_iff_append.mpr ⟨?_, after.reverse, before.reverse, ?_, fun other member => ?_⟩
      · rw [Review.decides, own, approves]
        rfl
      · rw [split]
        simp
      · rw [Bool.not_eq_true']
        exact Bool.eq_false_iff.mpr fun again => last ⟨other, List.mem_reverse.mp member, again⟩
    rw [StandsApproved, List.getLast?_filter, found]
    exact approves

theorem countable_iff : tables.Countable page reviews package ↔
    (tables.Signed page reviews package ↔ tables.Approved reviews package) := by
  rw [signed_iff, approved_iff]
  constructor
  · rintro ⟨superseded, unseen⟩
    constructor
    · rintro ⟨name, before, after, review, approval, inView⟩
      by_cases again : Superseded name after
      · exact superseded name before after review approval inView again
      · exact ⟨name, before, after, review, approval, again⟩
    · rintro ⟨name, before, after, review, approval, last⟩
      by_cases inView : InView page name before review
      · exact ⟨name, before, after, review, approval, inView⟩
      · exact unseen name before after review approval last inView
  · intro same
    exact ⟨fun name before after review approval inView _ => same.mp ⟨name, before, after, review, approval, inView⟩,
      fun name before after review approval last _ => same.mpr ⟨name, before, after, review, approval, last⟩⟩

/-- The check is right exactly if for every changed package an approval that a later decision has
superseded, or that is out of view, makes no difference. -/
theorem countsLatest_iff (tables : ApprovalTables) (page : Nat) (reviews : List Review) (changedPackages : List String) :
    tables.CountsLatest page reviews changedPackages ↔
      ∀ package ∈ changedPackages, tables.Countable page reviews package := by
  simp only [countable_iff]
  constructor
  · intro right package member
    have same := right.missing package
    rw [checkPrMaintainerApprovals_snd, and_congr_right_iff] at same
    exact not_iff_not.mp (same member)
  · intro same
    constructor
    · rw [checkPrMaintainerApprovals_fst]
      exact and_congr_right fun _ => forall₂_congr same
    · intro package
      rw [checkPrMaintainerApprovals_snd]
      exact and_congr_right fun member => not_congr (same package member)

/-- The only maintainer has approved, and then requested changes. -/
def oneMaintainer : ApprovalTables where
  users := [⟨5, "ada"⟩]
  maintainers := [⟨"hello", 5, 0⟩]

theorem withdrawnApproval_not_countsLatest : ¬ oneMaintainer.CountsLatest 30
    [⟨some "APPROVED", some "ada"⟩, ⟨some "CHANGES_REQUESTED", some "ada"⟩] ["hello"] := by
  intro right
  obtain ⟨name, maintains, stands⟩ := (right.eligible.mp (by decide)).2 "hello" (by decide)
  have listed := mem_getMaintainersForAttrPath.mpr maintains
  obtain rfl := List.mem_singleton.mp (show name ∈ ["ada"] from listed)
  exact absurd stands (by decide)

end ApprovalTables

end EkaCI
