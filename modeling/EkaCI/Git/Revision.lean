import EkaCI.Lib.Run
import EkaCI.Lib.UnixPath

/-! Which commit a worktree holds. A worktree is made once for each revision string and used
again whenever its path is there, and a string that resolves in the clone is not fetched. So
what a call leaves depends on what origin had when the clone and the worktree were made. -/

namespace EkaCI

open Lib
open Lib.UnixPath (components isAbsolute)

/-- Only a full object id is fetched by itself. -/
def isObjectId (rev : String) : Bool :=
  (rev.length = 40 ∨ rev.length = 64) ∧ rev.toList.all fun c => c.isDigit || ('a' ≤ c && c ≤ 'f')

structure ObjectId where
  text : String
  valid : isObjectId text = true
  deriving DecidableEq

/-- A commit, a branch or a tag by its name. None of them is absolute, climbs, or is empty. -/
structure RevName where
  text : String
  relative : isAbsolute text.toList = false
  parentless : ['.', '.'] ∉ components text.toList
  nonempty : components text.toList ≠ []

/-- The place of the worktree below the directory of the worktrees. -/
def RevName.place (rev : RevName) : List (List Char) := components rev.text.toList

/-- References under their full names. -/
abbrev Refs := List (String × ObjectId)

def Refs.ref (refs : Refs) (name : String) : Option ObjectId := (refs.find? (·.1 = name)).map Prod.snd

/-- The full names that a short one may stand for, in the order in which git tries them. -/
def candidates (rev : String) : List String :=
  [rev, "refs/" ++ rev, "refs/tags/" ++ rev, "refs/heads/" ++ rev, "refs/remotes/" ++ rev,
    "refs/remotes/" ++ rev ++ "/HEAD"]

/-- What the names of origin stand for at one time. -/
structure Origin where
  head : String
  branches : List (String × ObjectId)
  tags : List (String × ObjectId)

namespace Origin

def headCommit (origin : Origin) : Option ObjectId := (origin.branches.find? (·.1 = origin.head)).map Prod.snd

def branchRefs (origin : Origin) : Refs := origin.branches.map fun branch => ("refs/heads/" ++ branch.1, branch.2)

def tagRefs (origin : Origin) : Refs := origin.tags.map fun tag => ("refs/tags/" ++ tag.1, tag.2)

def refs (origin : Origin) : Refs :=
  origin.headCommit.toList.map ("HEAD", ·) ++ origin.branchRefs ++ origin.tagRefs

/-- The commit that a revision denotes at origin. A full object id is that object whatever
the names are. -/
def denotes (origin : Origin) (rev : String) : Option ObjectId :=
  if id : isObjectId rev = true then some ⟨rev, id⟩ else (candidates rev).findSome? (Refs.ref origin.refs)

end Origin

/-- The commits, wherever they are: which ones a commit builds on, and which paths its tree has. -/
structure CommitGraph where
  ancestor : ObjectId → ObjectId → Bool
  contains : ObjectId → List (List Char) → Bool

def CommitGraph.reaches (graph : CommitGraph) (tip commit : ObjectId) : Bool :=
  commit = tip || graph.ancestor commit tip

structure MasterClone where
  refs : Refs
  objects : ObjectId → Bool

namespace MasterClone

/-- `git rev-parse --verify rev^{commit}` -/
def resolve (clone : MasterClone) (rev : String) : Option ObjectId :=
  if id : isObjectId rev = true then if clone.objects ⟨rev, id⟩ then some ⟨rev, id⟩ else none
  else ((candidates rev).findSome? (Refs.ref clone.refs)).filter clone.objects

def revExists (clone : MasterClone) (rev : String) : Bool := (clone.resolve rev).isSome

end MasterClone

def trackingName (branch : String) : String := "refs/remotes/origin/" ++ branch

def Origin.trackingRefs (origin : Origin) : Refs :=
  origin.branches.map fun branch => (trackingName branch.1, branch.2)

section Git

variable (graph : CommitGraph)

/-- `git clone`: all the branches as remote ones, the default one as a local one, and the tags. -/
def cloneGitRepo (origin : Origin) : MasterClone where
  refs :=
    (origin.headCommit.toList.flatMap fun commit =>
      [("HEAD", commit), ("refs/heads/" ++ origin.head, commit), (trackingName "HEAD", commit)]) ++
      origin.trackingRefs ++ origin.tagRefs
  objects commit := (origin.branches ++ origin.tags).any fun ref => graph.reaches ref.2 commit

/-- `git fetch origin +refs/heads/*:refs/remotes/origin/*`: a tag into what was fetched comes
along unless there is one of that name. -/
def fetchBranches (origin : Origin) (clone : MasterClone) : MasterClone :=
  let objects := fun commit => clone.objects commit || origin.branches.any fun ref => graph.reaches ref.2 commit
  { refs := origin.trackingRefs ++ clone.refs ++ origin.tagRefs.filter (objects ·.2)
    objects }

def fetchObject (id : ObjectId) (clone : MasterClone) : MasterClone :=
  { clone with objects := fun commit => clone.objects commit || graph.reaches id commit }

/-- How the commands of git that a call runs turn out. -/
structure GitAnswers where
  cloned : Bool
  fetched : Bool
  given : Bool
  added : Bool

def ensureRevFetched (answers : GitAnswers) (origin : Origin) (clone : MasterClone) (rev : String) :
    Bool × MasterClone :=
  if clone.revExists rev then (true, clone)
  else if answers.fetched then
    let clone := fetchBranches graph origin clone
    if clone.revExists rev then (true, clone)
    else if id : isObjectId rev = true then
      if answers.given then (true, fetchObject graph ⟨rev, id⟩ clone) else (false, clone)
    else (false, clone)
  else (false, clone)

structure Worktree where
  rev : RevName
  commit : ObjectId

/-- One repository on the server, with every version of origin since its clone was made. -/
structure MirrorState where
  origin : Origin
  versions : List Origin
  clone : Option MasterClone
  worktrees : List Worktree
  /-- What calls have made on the way to a worktree that then could not be added. -/
  directories : List (List (List Char))

namespace MirrorState

def start (origin : Origin) : MirrorState := ⟨origin, [origin], none, [], []⟩

/-- A path is there when a worktree or another directory lies at or below it, or a worktree
has it in its tree. -/
def pathExists (state : MirrorState) (place : List (List Char)) : Bool :=
  (state.worktrees.any fun worktree =>
    place.isPrefixOf worktree.rev.place ||
      (worktree.rev.place.isPrefixOf place && graph.contains worktree.commit (place.drop worktree.rev.place.length))) ||
    state.directories.any place.isPrefixOf

def ensureMasterClone (state : MirrorState) (answers : GitAnswers) : MirrorState :=
  match state.clone with
  | some _ => state
  | none => if answers.cloned then { state with clone := some (cloneGitRepo graph state.origin) } else state

/-- Whether the call returns `Ok`, and what it leaves. -/
def createWorktree (state : MirrorState) (rev : RevName) (answers : GitAnswers) : Bool × MirrorState :=
  let state := state.ensureMasterClone graph answers
  match state.clone with
  | none => (false, state)
  | some clone =>
    if state.pathExists graph rev.place then (true, state)
    else
      let fetched := ensureRevFetched graph answers state.origin clone rev.text
      let state := { state with clone := some fetched.2 }
      if fetched.1 then
        -- the directory above the worktree is made first, and nothing removes it again
        let failed := { state with directories := state.directories ++ [rev.place.dropLast] }
        match fetched.2.resolve rev.text with
        | some commit =>
          if answers.added then (true, { state with worktrees := state.worktrees ++ [⟨rev, commit⟩] })
          else (false, failed)
        | none => (false, failed)
      else (false, state)

/-- Branches and tags of origin move, or a worktree is asked for. -/
inductive Action where
  | move (origin : Origin)
  | createWorktree (rev : RevName) (answers : GitAnswers)

def step (state : MirrorState) : Action → Option MirrorState
  | .move origin =>
    match state.clone with
    | some _ => some { state with origin, versions := state.versions ++ [origin] }
    | none => some { state with origin, versions := [origin] }
  | .createWorktree rev answers => some (state.createWorktree graph rev answers).2

end MirrorState

end Git

def isTracking (name : String) : Bool := "refs/remotes/origin/".toList.isPrefixOf name.toList

theorem isPrefixOf_toList_append (first second : String) : first.toList.isPrefixOf (first ++ second).toList = true := by
  rw [String.toList_append]
  exact List.isPrefixOf_iff_prefix.mpr (List.prefix_append _ _)

theorem isTracking_trackingName (branch : String) : isTracking (trackingName branch) = true :=
  isPrefixOf_toList_append "refs/remotes/origin/" branch

/-- The worktree path of a revision meets no worktree of another one, and no directory was
left at or below it. -/
def MirrorState.Clear (state : MirrorState) (rev : RevName) : Prop :=
  (∀ worktree ∈ state.worktrees, worktree.rev = rev ∨
    ¬(rev.place.isPrefixOf worktree.rev.place = true ∨ worktree.rev.place.isPrefixOf rev.place = true)) ∧
  ∀ directory ∈ state.directories, rev.place.isPrefixOf directory = false

/-- Every reference of origin that the name may stand for has been at one commit since the
clone was made, and none of them is what the clone calls its copy of a branch. -/
def MirrorState.Unmoved (state : MirrorState) (rev : RevName) : Prop :=
  (∀ name ∈ candidates rev.text, isTracking name = false) ∧
    ∃ commit, state.origin.denotes rev.text = some commit ∧
      ∀ version ∈ state.versions, ∀ entry ∈ version.refs, entry.1 ∈ candidates rev.text → entry.2 = commit

def MirrorState.Settled (state : MirrorState) : MirrorState.Action → Prop
  | .move _ => True
  | .createWorktree rev _ => state.Clear rev ∧ (isObjectId rev.text = true ∨ state.Unmoved rev)

/-- Where a commit that a name led to can have come from. -/
def FromOrigin (versions : List Origin) (rev : String) (commit : ObjectId) : Prop :=
  if isObjectId rev = true then commit.text = rev
  else ∃ name ∈ candidates rev, isTracking name = true ∨ ∃ version ∈ versions, (name, commit) ∈ version.refs

/-- The references of the clone are copies of branches, or stood at origin at some time. -/
def MasterClone.Copied (clone : MasterClone) (versions : List Origin) : Prop :=
  ∀ entry ∈ clone.refs, isTracking entry.1 = true ∨ ∃ version ∈ versions, entry ∈ version.refs

/-- What every run keeps, however origin moves. -/
structure Traced (state : MirrorState) : Prop where
  current : state.origin ∈ state.versions
  copied : ∀ clone, state.clone = some clone → clone.Copied state.versions
  made : ∀ worktree ∈ state.worktrees, FromOrigin state.versions worktree.rev.text worktree.commit
  bare : state.clone = none → state.worktrees = []

section Sound

variable {graph : CommitGraph} {versions : List Origin}

theorem Refs.mem_of_ref {refs : Refs} {name : String} {commit : ObjectId} (found : refs.ref name = some commit) :
    (name, commit) ∈ refs := by
  obtain ⟨⟨listed, held⟩, first, rfl⟩ := Option.map_eq_some_iff.mp found
  have same : listed = name := by simpa using List.find?_some first
  subst same
  exact List.mem_of_find?_eq_some first

variable {clone : MasterClone} {origin : Origin}

theorem MasterClone.Copied.mono {more : List Origin} (grown : ∀ version ∈ versions, version ∈ more)
    (copied : clone.Copied versions) : clone.Copied more :=
  fun entry member => (copied entry member).imp_right fun ⟨version, old, listed⟩ => ⟨version, grown version old, listed⟩

theorem MasterClone.Copied.resolve (copied : clone.Copied versions) {rev : String} {commit : ObjectId}
    (resolved : clone.resolve rev = some commit) : FromOrigin versions rev commit := by
  unfold MasterClone.resolve at resolved
  unfold FromOrigin
  split at resolved
  next id =>
    rw [if_pos id]
    split at resolved
    next => cases resolved; rfl
    next => cases resolved
  next id =>
    rw [if_neg id]
    obtain ⟨found, -⟩ := Option.filter_eq_some_iff.mp resolved
    obtain ⟨name, listed, ref⟩ := List.exists_of_findSome?_eq_some found
    exact ⟨name, listed, copied _ (Refs.mem_of_ref ref)⟩

theorem mem_trackingRefs {entry : String × ObjectId} (member : entry ∈ origin.trackingRefs) :
    isTracking entry.1 = true := by
  obtain ⟨branch, -, rfl⟩ := List.mem_map.mp member
  exact isTracking_trackingName branch.1

theorem cloneGitRepo_copied (current : origin ∈ versions) : (cloneGitRepo graph origin).Copied versions := by
  intro entry member
  simp only [cloneGitRepo, List.mem_append, List.mem_flatMap, Option.mem_toList, List.mem_cons, List.not_mem_nil,
    or_false] at member
  rcases member with (⟨commit, head, rfl | rfl | rfl⟩ | tracking) | tag
  · refine Or.inr ⟨origin, current, ?_⟩
    simp [Origin.refs, head]
  · obtain ⟨⟨name, held⟩, first, rfl⟩ := Option.map_eq_some_iff.mp head
    have same : name = origin.head := by simpa using List.find?_some first
    refine Or.inr ⟨origin, current, ?_⟩
    have listed : ("refs/heads/" ++ origin.head, held) ∈ origin.branchRefs :=
      List.mem_map.mpr ⟨(name, held), List.mem_of_find?_eq_some first, by rw [same]⟩
    simp [Origin.refs, listed]
  · exact Or.inl (isTracking_trackingName "HEAD")
  · exact Or.inl (mem_trackingRefs tracking)
  · refine Or.inr ⟨origin, current, ?_⟩
    simp [Origin.refs, tag]

end Sound

section Steps

variable {graph : CommitGraph} {state : MirrorState}

theorem Traced.ensureMasterClone (graph : CommitGraph) (traced : Traced state) (answers : GitAnswers) :
    Traced (state.ensureMasterClone graph answers) := by
  unfold MirrorState.ensureMasterClone
  split
  next => exact traced
  next =>
    split
    next =>
      refine ⟨traced.current, ?_, traced.made, nofun⟩
      rintro clone made
      cases made
      exact cloneGitRepo_copied traced.current
    next => exact traced

end Steps

end EkaCI
