import EkaCI.Lib.UnixPath

/-! Where the checkouts of a repository lie. The paths are put together from the strings of a
request as they come, so a string may be absolute, climb, or hold several components. -/

namespace EkaCI

open Lib (UnixPath)
open Lib.UnixPath (components isAbsolute descend walk)

inductive GitProtocol where
  | https
  | http
  | ssh

structure GitRepo where
  protocol : GitProtocol
  domain : String
  owner : String
  repo : String

structure GitWorkspace where
  repo : GitRepo
  /-- Branch, tag, or commit. -/
  revParse : String
  repoPath : UnixPath
  worktreePath : UnixPath

def GitWorkspace.new (repo : GitRepo) (revParse : String) (root : UnixPath) : GitWorkspace :=
  let dir := ((root.push repo.domain.toList).push repo.owner.toList).push repo.repo.toList
  { repo
    revParse
    repoPath := dir.push "master".toList
    worktreePath := (dir.push "worktrees".toList).push revParse.toList }

/-- The four strings of a request. All the webhooks and the socket make their workspaces
from such strings, over https. -/
structure GitRequest where
  domain : String
  owner : String
  repo : String
  commitish : String

def GitWorkspace.fromGitRequest (root : UnixPath) (request : GitRequest) : GitWorkspace :=
  .new ⟨.https, request.domain, request.owner, request.repo⟩ request.commitish root

/-- The data directory is absolute. -/
structure ReposRoot where
  path : UnixPath
  absolute : isAbsolute path.text = true

section Layout

/-- `place` lies below `root` and is not `root`. -/
def StrictlyInside (root place : List (List Char)) : Prop := root <+: place ∧ root ≠ place

/-- Neither place is the other one or lies above it. -/
def Apart (first second : List (List Char)) : Prop := ¬first <+: second ∧ ¬second <+: first

instance (first second : List (List Char)) : Decidable (Apart first second) := inferInstanceAs (Decidable (_ ∧ _))

def GitWorkspace.Contained (workspace : GitWorkspace) (root : ReposRoot) : Prop :=
  StrictlyInside root.path.locate workspace.repoPath.locate ∧
    StrictlyInside root.path.locate workspace.worktreePath.locate

/-- The worktree of one workspace does not meet the worktree or the clone of the other. -/
def GitWorkspace.Disjoint (first second : GitWorkspace) : Prop :=
  Apart first.worktreePath.locate second.worktreePath.locate ∧
    Apart first.worktreePath.locate second.repoPath.locate ∧
      Apart second.worktreePath.locate first.repoPath.locate

/-- Under this root both requests stay inside, and two different ones stay apart. -/
def KeptApart (root : ReposRoot) (first second : GitRequest) : Prop :=
  (GitWorkspace.fromGitRequest root.path first).Contained root ∧
    (GitWorkspace.fromGitRequest root.path second).Contained root ∧
      (first ≠ second → (GitWorkspace.fromGitRequest root.path first).Disjoint
        (GitWorkspace.fromGitRequest root.path second))

end Layout

namespace GitRequest

variable (request : GitRequest)

def repoParts : List (List Char) :=
  [request.domain.toList, request.owner.toList, request.repo.toList, "master".toList]

def worktreeParts : List (List Char) :=
  [request.domain.toList, request.owner.toList, request.repo.toList, "worktrees".toList, request.commitish.toList]

/-- The components from the root to the clone, in the order of the strings. -/
def repoNames : List (List Char) := request.repoParts.flatMap components

def worktreeNames : List (List Char) := request.worktreeParts.flatMap components

/-- No string is absolute. In the order of the strings no `..` takes back more than stands
before it, and at the end something is left. -/
def Confined : Prop :=
  (∀ part ∈ request.worktreeParts, isAbsolute part = false) ∧
    ∃ depth, 0 < depth ∧ descend 0 request.worktreeNames = some depth

end GitRequest

theorem locate_pushAll_confined (root : UnixPath) {parts : List (List Char)} {depth : Nat}
    (relative : ∀ part ∈ parts, isAbsolute part = false)
    (below : descend 0 (parts.flatMap components) = some depth) :
    (root.pushAll parts).locate = root.locate ++ walk [] (parts.flatMap components) ∧
      (walk [] (parts.flatMap components)).length = depth := by
  obtain ⟨same, length⟩ := Lib.UnixPath.walk_below root.locate [] below
  rw [List.append_nil] at same
  exact ⟨(Lib.UnixPath.locate_pushAll root relative).trans same, length⟩

theorem strictlyInside_append {root place : List (List Char)} :
    StrictlyInside root (root ++ place) ↔ place ≠ [] := by
  constructor
  · rintro ⟨-, different⟩ rfl
    exact different (List.append_nil root).symm
  · intro nonempty
    refine ⟨List.prefix_append root place, fun same => nonempty ?_⟩
    exact List.self_eq_append_right.mp same

theorem confined_of_inside {parts : List (List Char)}
    (inside : ∀ root : ReposRoot, StrictlyInside root.path.locate (root.path.pushAll parts).locate) :
    (∀ part ∈ parts, isAbsolute part = false) ∧ ∃ depth, 0 < depth ∧ descend 0 (parts.flatMap components) = some depth := by
  -- A root that no part names shows it: whatever leaves it does not come back.
  obtain ⟨fresh, unnamed, located⟩ := Lib.UnixPath.exists_fresh (parts.flatMap components)
  obtain ⟨below, different⟩ := inside ⟨⟨'/' :: fresh⟩, rfl⟩
  simp only [located] at below different
  have kept : fresh ∈ (UnixPath.pushAll ⟨'/' :: fresh⟩ parts).locate := below.subset List.mem_cons_self
  have relative : ∀ part ∈ parts, isAbsolute part = false := by
    intro part member
    refine Bool.eq_false_iff.mpr fun absolute => unnamed ?_
    exact Lib.UnixPath.mem_locate_pushAll_absolute member absolute kept
  refine ⟨relative, ?_⟩
  cases ends : descend 0 (parts.flatMap components) with
  | none =>
    rw [Lib.UnixPath.locate_pushAll _ relative, located] at kept
    exact absurd kept (Lib.UnixPath.not_mem_walk_of_climbs [] ends unnamed List.not_mem_nil)
  | some depth =>
    obtain ⟨same, length⟩ := locate_pushAll_confined ⟨'/' :: fresh⟩ relative ends
    rw [same, located] at different
    refine ⟨depth, ?_, rfl⟩
    rw [← length]
    exact List.length_pos_iff.mpr fun empty => different (by rw [empty, List.append_nil])

theorem inside_of_confined {parts : List (List Char)} {depth : Nat} (relative : ∀ part ∈ parts, isAbsolute part = false)
    (positive : 0 < depth) (below : descend 0 (parts.flatMap components) = some depth) (root : ReposRoot) :
    StrictlyInside root.path.locate (root.path.pushAll parts).locate := by
  obtain ⟨same, length⟩ := locate_pushAll_confined root.path relative below
  rw [same]
  refine strictlyInside_append.mpr fun empty => ?_
  rw [empty, List.length_nil] at length
  omega

namespace GitRequest

variable {request : GitRequest}

theorem Confined.repo (confined : request.Confined) :
    (∀ part ∈ request.repoParts, isAbsolute part = false) ∧
      ∃ depth, 0 < depth ∧ descend 0 request.repoNames = some depth := by
  obtain ⟨relative, depth, -, below⟩ := confined
  constructor
  · intro part member
    simp only [repoParts, List.mem_cons, List.not_mem_nil, or_false] at member
    rcases member with rfl | rfl | rfl | rfl
    · exact relative _ (by simp [worktreeParts])
    · exact relative _ (by simp [worktreeParts])
    · exact relative _ (by simp [worktreeParts])
    · decide
  · have worktree : request.worktreeNames =
        (components request.domain.toList ++ components request.owner.toList ++ components request.repo.toList) ++
          ("worktrees".toList :: components request.commitish.toList) := by
      simp only [worktreeNames, worktreeParts, List.flatMap_cons, List.flatMap_nil, List.append_nil, List.append_assoc]
      rfl
    have clone : request.repoNames =
        (components request.domain.toList ++ components request.owner.toList ++ components request.repo.toList) ++
          ["master".toList] := by
      simp only [repoNames, repoParts, List.flatMap_cons, List.flatMap_nil, List.append_nil, List.append_assoc]
      rfl
    rw [worktree, Lib.UnixPath.descend_append] at below
    obtain ⟨level, reached, -⟩ := Option.bind_eq_some_iff.mp below
    refine ⟨level + 1, Nat.succ_pos level, ?_⟩
    rw [clone, Lib.UnixPath.descend_append, reached]
    rfl

theorem contained_iff : (∀ root, (GitWorkspace.fromGitRequest root.path request).Contained root) ↔ request.Confined := by
  constructor
  · intro contained
    exact confined_of_inside fun root => (contained root).2
  · intro confined root
    obtain ⟨relative, depth, positive, below⟩ := confined.repo
    obtain ⟨worktreeRelative, worktreeDepth, worktreePositive, worktreeBelow⟩ := confined
    exact ⟨inside_of_confined relative positive below root,
      inside_of_confined worktreeRelative worktreePositive worktreeBelow root⟩

/-- The names that are left on the way to the clone when each `..` has taken back the name
before it. -/
def repoPlace (request : GitRequest) : List (List Char) := walk [] request.repoNames

def worktreePlace (request : GitRequest) : List (List Char) := walk [] request.worktreeNames

theorem Confined.locate_repoPath (confined : request.Confined) (root : UnixPath) :
    (GitWorkspace.fromGitRequest root request).repoPath.locate = root.locate ++ request.repoPlace := by
  obtain ⟨relative, depth, -, below⟩ := confined.repo
  exact (locate_pushAll_confined _ relative below).1

theorem Confined.locate_worktreePath (confined : request.Confined) (root : UnixPath) :
    (GitWorkspace.fromGitRequest root request).worktreePath.locate = root.locate ++ request.worktreePlace := by
  obtain ⟨relative, depth, -, below⟩ := confined
  exact (locate_pushAll_confined _ relative below).1

end GitRequest

theorem apart_append {root first second : List (List Char)} :
    Apart (root ++ first) (root ++ second) ↔ Apart first second := by
  simp only [Apart, List.prefix_append_right_inj]

/-- Two requests part: their names differ at some position that both have, worktree against
worktree and each worktree against the clone of the other. -/
def GitRequest.Part (first second : GitRequest) : Prop :=
  Apart first.worktreePlace second.worktreePlace ∧ Apart first.worktreePlace second.repoPlace ∧
    Apart second.worktreePlace first.repoPlace

theorem disjoint_iff_part {root : UnixPath} {first second : GitRequest} (one : first.Confined) (other : second.Confined) :
    (GitWorkspace.fromGitRequest root first).Disjoint (GitWorkspace.fromGitRequest root second) ↔
      first.Part second := by
  simp only [GitWorkspace.Disjoint, GitRequest.Part, one.locate_repoPath, one.locate_worktreePath,
    other.locate_repoPath, other.locate_worktreePath, apart_append]

/-- The workspaces of two requests are kept inside every root and apart exactly when the
strings themselves stay below it and part. -/
theorem keptApart_iff (first second : GitRequest) :
    (∀ root, KeptApart root first second) ↔
      first.Confined ∧ second.Confined ∧ (first ≠ second → first.Part second) := by
  constructor
  · intro kept
    have one : first.Confined := GitRequest.contained_iff.mp fun root => (kept root).1
    have other : second.Confined := GitRequest.contained_iff.mp fun root => (kept root).2.1
    exact ⟨one, other, fun different => (disjoint_iff_part one other).mp ((kept ⟨⟨['/']⟩, rfl⟩).2.2 different)⟩
  · rintro ⟨one, other, part⟩ root
    exact ⟨GitRequest.contained_iff.mpr one root, GitRequest.contained_iff.mpr other root,
      fun different => (disjoint_iff_part one other).mpr (part different)⟩

/-- A revision that is absolute leads out of the root. -/
theorem absolute_revision_not_kept :
    ¬KeptApart ⟨⟨"/var/lib/ekaci/repos".toList⟩, by decide⟩ ⟨"github.com", "NixOS", "nixpkgs", "/etc"⟩
      ⟨"github.com", "NixOS", "nixpkgs", "master"⟩ := by
  intro kept
  exact absurd kept.1.2.1 (by decide)

end EkaCI
