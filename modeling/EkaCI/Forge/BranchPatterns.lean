import EkaCI.Forge.WebhookGates
import EkaCI.Lib.Glob

/-! What the branch patterns of the caches and of the apps let in. The matcher knows a star
alone, one after a final slash and one before an initial slash, and there it lets the slash
go together with the star. -/

namespace EkaCI

open Lib

/-- The pattern as it is documented: `*` is any text. -/
def MatchesGlob (branch pattern : String) : Prop := Glob '*' pattern.toList branch.toList

def CachePermissions.toApp (permissions : CachePermissions) : GitHubAppPermissions :=
  ⟨permissions.allowAll, permissions.allowedRepos, permissions.allowedBranches⟩

/-- Whom a record is to let in. -/
def CachePermissions.Admits (permissions : CachePermissions) (context : PermissionContext) : Prop :=
  permissions.allowAll = true ∨
    (permissions.allowedRepos = [] ∨ context.repoFullName ∈ permissions.allowedRepos) ∧
      (permissions.allowedBranches = [] ∨ ∃ branch ∈ context.branch, ∃ pattern ∈ permissions.allowedBranches,
        MatchesGlob branch pattern)

/-- The patterns match as globs, and the two checks let in whom the record is to let in. -/
structure CachePermissions.MeanWhatTheySay (permissions : CachePermissions) (context : PermissionContext) : Prop where
  patterns : ∀ branch ∈ context.branch, ∀ pattern ∈ permissions.allowedBranches,
    matchesGlobPattern branch pattern = true ↔ MatchesGlob branch pattern
  cache : ∀ (Source : Type) (cache : CacheConfig Source), cache.permissions = permissions →
    (checkCachePermission cache context = .ok () ↔ permissions.Admits context)
  app : ∀ app : GitHubAppConfig, app.permissions = permissions.toApp →
    (checkGithubAppPermission app context = .ok () ↔ permissions.Admits context)

/-- What stands between the stars of the pattern is found in the branch, in order. -/
def Laid (branch pattern : List Char) : Prop := Glob.InOrder (pattern.splitOn '*') branch

/-- The shapes of a pattern that a branch is matched with rightly. A star that is not alone
beside an outer slash is compared with a star, so a branch must then hold the pattern, or
what is left of it at that slash, both literally and in pieces, or neither. -/
inductive GlobShape (branch : List Char) : List Char → Prop where
  | plain {pattern : List Char} (plain : '*' ∉ pattern) : GlobShape branch pattern
  | all : GlobShape branch ['*']
  | below {front : List Char} (plain : '*' ∉ front) (apart : front <+: branch → front ++ ['/'] <+: branch) :
      GlobShape branch (front ++ ['/', '*'])
  | above {back : List Char} (plain : '*' ∉ back) (apart : back <:+ branch → '/' :: back <:+ branch) :
      GlobShape branch ('*' :: '/' :: back)
  | starredBelow {front : List Char} (starred : '*' ∈ front) (literal : front <+: branch)
      (laid : Laid branch (front ++ ['/', '*'])) : GlobShape branch (front ++ ['/', '*'])
  | starredAbove {back : List Char} (starred : '*' ∈ back) (inner : ¬ ['/', '*'] <:+ '*' :: '/' :: back)
      (literal : back <:+ branch) (laid : Laid branch ('*' :: '/' :: back)) : GlobShape branch ('*' :: '/' :: back)
  | itself (other : branch ≠ ['*']) (notBelow : ¬ ['/', '*'] <:+ branch) (notAbove : ¬ ['*', '/'] <+: branch) :
      GlobShape branch branch
  | unlaid {pattern : List Char} (notLaid : ¬ Laid branch pattern)
      (below : ∀ front, pattern = front ++ ['/', '*'] → ¬ front <+: branch)
      (above : ∀ back, pattern = '*' :: '/' :: back → ¬ ['/', '*'] <:+ pattern → ¬ back <:+ branch) :
      GlobShape branch pattern

section Matcher

variable {branch pattern : String} {front back : List Char}

theorem matchesGlob_iff : MatchesGlob branch pattern ↔ Laid branch.toList pattern.toList := Glob.iff_inOrder

theorem eq_star_iff : pattern = "*" ↔ pattern.toList = ['*'] := by
  rw [← String.toList_inj]
  rfl

theorem matchesGlobPattern_below (shape : pattern.toList = front ++ ['/', '*']) :
    matchesGlobPattern branch pattern = true ↔ front <+: branch.toList := by
  have other : ¬ pattern = "*" := by
    rw [eq_star_iff, shape]
    intro same
    simpa using congrArg List.length same
  have below : ['/', '*'].isSuffixOf pattern.toList = true := by
    rw [List.isSuffixOf_iff_suffix, shape]
    exact List.suffix_append _ _
  rw [matchesGlobPattern, if_neg other, if_pos below, shape]
  simp

theorem matchesGlobPattern_above (shape : pattern.toList = '*' :: '/' :: back) (inner : ¬ ['/', '*'] <:+ pattern.toList) :
    matchesGlobPattern branch pattern = true ↔ back <:+ branch.toList := by
  have other : ¬ pattern = "*" := by
    rw [eq_star_iff, shape]
    intro same
    simpa using congrArg List.length same
  have above : ['*', '/'].isPrefixOf pattern.toList = true := by
    rw [List.isPrefixOf_iff_prefix, shape]
    exact List.prefix_append ['*', '/'] back
  rw [matchesGlobPattern, if_neg other, if_neg (by rwa [List.isSuffixOf_iff_suffix]), if_pos above, shape]
  simp

theorem matchesGlobPattern_other (other : pattern ≠ "*") (notBelow : ¬ ['/', '*'] <:+ pattern.toList)
    (notAbove : ¬ ['*', '/'] <+: pattern.toList) :
    matchesGlobPattern branch pattern = true ↔ branch.toList = pattern.toList := by
  rw [matchesGlobPattern, if_neg other, if_neg (by rwa [List.isSuffixOf_iff_suffix]),
    if_neg (by rwa [List.isPrefixOf_iff_prefix]), decide_eq_true_iff, String.toList_inj]

theorem glob_below (plain : '*' ∉ front) {value : List Char} :
    Glob '*' (front ++ ['/', '*']) value ↔ front ++ ['/'] <+: value := by
  rw [List.append_cons front '/' ['*'], Glob.prefix_iff (by simpa using plain)]

theorem glob_above (plain : '*' ∉ back) {value : List Char} :
    Glob '*' ('*' :: '/' :: back) value ↔ '/' :: back <:+ value :=
  Glob.suffix_iff (by simpa using plain)

theorem not_below_of_plain (plain : '*' ∉ back) : ¬ ['/', '*'] <:+ '*' :: '/' :: back := by
  rintro ⟨front, same⟩
  have last := congrArg List.getLast? same
  cases back with
  | nil => simp at last
  | cons letter back =>
    have ends : (letter :: back).getLast? = some '*' := by
      rw [List.getLast?_append] at last
      simpa using last.symm
    exact plain (List.mem_of_getLast? ends)

theorem laid_self (pattern : List Char) : Laid pattern pattern := Glob.iff_inOrder.mp (Glob.self pattern)

theorem matchesGlobPattern_unlaid (notLaid : ¬ Laid branch.toList pattern.toList)
    (below : ∀ front, pattern.toList = front ++ ['/', '*'] → ¬ front <+: branch.toList)
    (above : ∀ back, pattern.toList = '*' :: '/' :: back → ¬ ['/', '*'] <:+ pattern.toList → ¬ back <:+ branch.toList) :
    ¬ matchesGlobPattern branch pattern = true := by
  intro matched
  by_cases lone : pattern = "*"
  · exact notLaid (matchesGlob_iff.mp (by rw [MatchesGlob, eq_star_iff.mp lone]; exact Glob.lone _))
  by_cases ends : ['/', '*'] <:+ pattern.toList
  · obtain ⟨front, shape⟩ := ends
    exact below front shape.symm ((matchesGlobPattern_below shape.symm).mp matched)
  by_cases starts : ['*', '/'] <+: pattern.toList
  · obtain ⟨back, shape⟩ := starts
    exact above back shape.symm ends ((matchesGlobPattern_above shape.symm ends).mp matched)
  · rw [(matchesGlobPattern_other lone ends starts).mp matched] at notLaid
    exact notLaid (laid_self _)

theorem matchesGlobPattern_iff (branch pattern : String) :
    (matchesGlobPattern branch pattern = true ↔ MatchesGlob branch pattern) ↔
      GlobShape branch.toList pattern.toList := by
  constructor
  · intro same
    rw [matchesGlob_iff] at same
    by_cases laid : Laid branch.toList pattern.toList
    · have matched := same.mpr laid
      by_cases plain : '*' ∉ pattern.toList
      · exact .plain plain
      by_cases lone : pattern = "*"
      · rw [eq_star_iff.mp lone]
        exact .all
      by_cases ends : ['/', '*'] <:+ pattern.toList
      · obtain ⟨front, shape⟩ := ends
        have literal := (matchesGlobPattern_below shape.symm).mp matched
        rw [← shape] at laid ⊢
        by_cases starred : '*' ∈ front
        · exact .starredBelow starred literal laid
        · exact .below starred fun _ => (glob_below starred).mp (Glob.iff_inOrder.mpr laid)
      by_cases starts : ['*', '/'] <+: pattern.toList
      · obtain ⟨back, shape⟩ := starts
        have literal := (matchesGlobPattern_above shape.symm ends).mp matched
        rw [← shape] at laid ends ⊢
        by_cases starred : '*' ∈ back
        · exact .starredAbove starred ends literal laid
        · exact .above starred fun _ => (glob_above starred).mp (Glob.iff_inOrder.mpr laid)
      · have itself := (matchesGlobPattern_other lone ends starts).mp matched
        rw [← itself] at ends starts ⊢
        refine .itself (fun star => lone (eq_star_iff.mpr ?_)) ends starts
        rw [← itself]
        exact star
    · refine .unlaid laid (fun front shape literal => ?_) fun back shape inner literal => ?_
      · exact laid (same.mp ((matchesGlobPattern_below shape).mpr literal))
      · exact laid (same.mp ((matchesGlobPattern_above shape inner).mpr literal))
  · intro shape
    generalize text : pattern.toList = letters at shape
    cases shape with
    | plain plain =>
      have other : pattern ≠ "*" := fun star => plain (by rw [← text, eq_star_iff.mp star]; exact List.mem_cons_self)
      have notBelow : ¬ ['/', '*'] <:+ pattern.toList := fun ends => plain (text ▸ ends.mem (by simp))
      have notAbove : ¬ ['*', '/'] <+: pattern.toList := fun starts => plain (text ▸ starts.mem (by simp))
      rw [matchesGlobPattern_other other notBelow notAbove, MatchesGlob, text, Glob.plain_iff plain]
    | all =>
      have lone := eq_star_iff.mpr text
      rw [MatchesGlob, text]
      exact ⟨fun _ => Glob.lone _, fun _ => by rw [matchesGlobPattern, if_pos lone]⟩
    | below plain apart =>
      rw [matchesGlobPattern_below text, MatchesGlob, text, glob_below plain]
      exact ⟨apart, fun starts => (List.prefix_append _ ['/']).trans starts⟩
    | above plain apart =>
      rw [matchesGlobPattern_above text (text ▸ not_below_of_plain plain), MatchesGlob, text, glob_above plain]
      exact ⟨apart, fun ends => (List.suffix_cons '/' _).trans ends⟩
    | starredBelow starred literal laid =>
      rw [matchesGlobPattern_below text, matchesGlob_iff, text]
      exact iff_of_true literal laid
    | starredAbove starred inner literal laid =>
      rw [matchesGlobPattern_above text (text ▸ inner), matchesGlob_iff, text]
      exact iff_of_true literal laid
    | itself other notBelow notAbove =>
      have lone : pattern ≠ "*" := fun star => other (text ▸ eq_star_iff.mp star)
      rw [matchesGlobPattern_other lone (text ▸ notBelow) (text ▸ notAbove), matchesGlob_iff, text]
      exact iff_of_true rfl (laid_self _)
    | unlaid notLaid below above =>
      subst text
      exact iff_of_false (matchesGlobPattern_unlaid notLaid below above) (mt matchesGlob_iff.mp notLaid)

end Matcher

section Checks

variable {permissions : CachePermissions} {context : PermissionContext}

theorem checkCachePermission_iff {Source : Type} {cache : CacheConfig Source} :
    checkCachePermission cache context = .ok () ↔ cache.permissions.allowAll = true ∨
      (cache.permissions.allowedRepos = [] ∨ context.repoFullName ∈ cache.permissions.allowedRepos) ∧
        (cache.permissions.allowedBranches = [] ∨ ∃ branch ∈ context.branch,
          ∃ pattern ∈ cache.permissions.allowedBranches, matchesGlobPattern branch pattern = true) := by
  unfold checkCachePermission
  split
  next all => simp [all]
  next notAll =>
    split
    next refused =>
      obtain ⟨some, absent⟩ := refused
      simp [notAll, some, absent]
    next repos =>
      have repos : cache.permissions.allowedRepos = [] ∨ context.repoFullName ∈ cache.permissions.allowedRepos := by
        tauto
      split
      next none => simp [none, repos]
      next some =>
        split
        next branch known =>
          rw [known]
          by_cases matched : cache.permissions.allowedBranches.any (matchesGlobPattern branch) = true
          · rw [if_pos matched]
            have found := List.any_eq_true.mp matched
            exact ⟨fun _ => Or.inr ⟨repos, Or.inr ⟨branch, rfl, found⟩⟩, fun _ => rfl⟩
          · rw [if_neg matched]
            simpa [notAll, some, repos] using matched
        next unknown => simp [notAll, some, unknown]

theorem checkGithubAppPermission_iff {Source : Type} {app : GitHubAppConfig} {cache : CacheConfig Source}
    (same : app.permissions = cache.permissions.toApp) :
    checkGithubAppPermission app context = .ok () ↔ checkCachePermission cache context = .ok () := by
  unfold checkGithubAppPermission checkCachePermission
  simp only [same, CachePermissions.toApp]
  by_cases all : cache.permissions.allowAll = true
  · rw [if_pos all, if_pos all]
    exact iff_of_true rfl rfl
  · rw [if_neg all, if_neg all]
    by_cases refused : cache.permissions.allowedRepos ≠ [] ∧ context.repoFullName ∉ cache.permissions.allowedRepos
    · rw [if_pos refused, if_pos refused]
      simp only [reduceCtorEq]
    · rw [if_neg refused, if_neg refused]
      by_cases free : cache.permissions.allowedBranches = []
      · rw [if_pos free, if_pos free]
        exact iff_of_true rfl rfl
      · rw [if_neg free, if_neg free]
        cases context.branch with
        | none => simp only [reduceCtorEq]
        | some branch =>
          dsimp only
          by_cases matched : cache.permissions.allowedBranches.any (matchesGlobPattern branch) = true
          · rw [if_pos matched, if_pos matched]
            exact iff_of_true rfl rfl
          · rw [if_neg matched, if_neg matched]
            simp only [reduceCtorEq]

/-- The records mean what they say exactly where every pattern has one of the shapes that
the matcher gets right for the branch. -/
theorem meanWhatTheySay_iff (permissions : CachePermissions) (context : PermissionContext) :
    permissions.MeanWhatTheySay context ↔ ∀ branch ∈ context.branch, ∀ pattern ∈ permissions.allowedBranches,
      GlobShape branch.toList pattern.toList := by
  constructor
  · intro means branch known pattern listed
    exact (matchesGlobPattern_iff branch pattern).mp (means.patterns branch known pattern listed)
  · intro shapes
    have patterns : ∀ branch ∈ context.branch, ∀ pattern ∈ permissions.allowedBranches,
        (matchesGlobPattern branch pattern = true ↔ MatchesGlob branch pattern) := fun branch known pattern listed =>
      (matchesGlobPattern_iff branch pattern).mpr (shapes branch known pattern listed)
    have cache : ∀ (Source : Type) (cache : CacheConfig Source), cache.permissions = permissions →
        (checkCachePermission cache context = .ok () ↔ permissions.Admits context) := by
      rintro Source cache rfl
      rw [checkCachePermission_iff, CachePermissions.Admits]
      refine or_congr_right (and_congr_right fun _ => or_congr_right (exists_congr fun branch => ?_))
      refine and_congr_right fun known => exists_congr fun pattern => and_congr_right fun listed => ?_
      exact patterns branch known pattern listed
    refine ⟨patterns, cache, fun app same => ?_⟩
    rw [← cache Unit ⟨"", .nixCopy, "", (), permissions⟩ rfl]
    exact checkGithubAppPermission_iff same

/-- Whoever may push a branch that begins like the pattern. -/
theorem releaseCandidate_not_meanWhatTheySay :
    ¬ (⟨false, ["ekala/corepkgs"], ["release/*"]⟩ : CachePermissions).MeanWhatTheySay
      ⟨"ekala", "corepkgs", some "release-untrusted"⟩ := by
  intro means
  have matched := (means.patterns "release-untrusted" rfl "release/*" (List.mem_singleton.mpr rfl)).mp (by decide)
  have starts := (@glob_below "release".toList (by decide) _).mp matched
  exact absurd starts (by decide)

end Checks

end EkaCI
