import EkaCI.Lib.FileTree
import EkaCI.Scheduler.System

/-! The git directories that a checkout brings into its sandbox. The `.git` file of a linked
worktree names its git dir, which names the worktree in turn, and the common directory of the
repository. The git dir is resolved; the path to the common directory is put together from
what was written. -/

namespace EkaCI

open Lib

variable (tree : FileTree) (root : UnixPath)

/-- A path without `.` and `..`, which take back the component before them. -/
def lexical (path : UnixPath) : UnixPath :=
  if UnixPath.isAbsolute path.text then ⟨UnixPath.render path.locate⟩ else ⟨['/'].intercalate path.locate⟩

/-- The path from the top, up to what the lexical form makes the same of it. -/
def absolutePath : Option UnixPath :=
  if root.text = [] then none else some (UnixPath.push ⟨UnixPath.render tree.cwd⟩ root.text)

namespace Checkout

def dotGit : UnixPath := root.push ".git".toList

/-- The path is below the checkout, as it was given or as it really is. -/
def isInside (given real path : UnixPath) : Bool := path.startsWith given || path.startsWith real

/-- What the `.git` file names, from the root of the checkout. -/
def writtenGitDir (given : UnixPath) : Option UnixPath := do
  let content ← tree.readToString (dotGit root)
  let dir ← "gitdir:".toList.isPrefixOf? (trim content)
  some (lexical (given.push (trim dir)))

/-- What the `gitdir` file of a git dir points back at. -/
def backLink (gitdir : UnixPath) : Option UnixPath := do
  let content ← tree.readToString (gitdir.push "gitdir".toList)
  tree.canonicalize (gitdir.push (trim content))

/-- What the `commondir` file of the git dir makes of the path that was written. -/
def writtenCommonDir (written gitdir : UnixPath) : Option UnixPath :=
  (tree.readToString (gitdir.push "commondir".toList)).map fun content => lexical (written.push (trim content))

def linkedGitDirs : List UnixPath :=
  match absolutePath tree root, tree.canonicalize root with
  | some given, some real =>
    let given := lexical given
    match (writtenGitDir tree root given).bind fun written => (tree.canonicalize written).map fun gitdir => (written, gitdir) with
    | none => []
    | some (written, gitdir) =>
      if isInside given real written || isInside given real gitdir ||
          backLink tree gitdir ≠ some (real.push ".git".toList) then []
      else
        let common := (writtenCommonDir tree written gitdir).filter fun common =>
          !isInside given real common &&
            (tree.canonicalize common).any fun resolved => resolved ≠ gitdir && !isInside given real resolved
        written :: common.toList
  | _, _ => []

/-- The directory that the `commondir` file denotes, from the git dir itself. -/
def commonDir (gitdir : UnixPath) : Option UnixPath := do
  let content ← tree.readToString (gitdir.push "commondir".toList)
  tree.canonicalize (gitdir.push (trim content))

/-- The `gitdir` file of the git dir leads to the `.git` of this checkout. -/
def PointsBack (gitdir : UnixPath) : Prop :=
  ∃ here, backLink tree gitdir = some here ∧ tree.canonicalize (dotGit root) = some here

/-- Nothing is mounted but a git dir that points back at this checkout, and its common directory. -/
def MountsOwn (dirs : List UnixPath) : Prop :=
  dirs = [] ∨ ∃ gitdir, PointsBack tree root gitdir ∧ dirs.head?.bind tree.canonicalize = some gitdir ∧
    ∀ dir ∈ dirs, tree.canonicalize dir = some gitdir ∨
      ∃ common, commonDir tree gitdir = some common ∧ tree.canonicalize dir = some common

/-- The names go below those of the checkout, as it was given or as it really is. -/
def Inside (names : List (List Char)) : Prop :=
  root.resolve tree.cwd <+: names ∨ ∃ place, tree.locate root = some place ∧ place <+: names

/-- The `.git` file names a directory outside of the checkout, and the `gitdir` file of the
place behind it leads to that `.git`. -/
structure Linked (names place : List (List Char)) : Prop where
  named : ∃ content dir, tree.readToString (dotGit root) = some content ∧ "gitdir:".toList ++ dir = trim content ∧
    UnixPath.resolve (root.resolve tree.cwd) ⟨trim dir⟩ = names
  leads : tree.locate ⟨UnixPath.render names⟩ = some place
  outside : ¬ Inside tree root names ∧ ¬ Inside tree root place
  back : ∃ content here, tree.readToString (UnixPath.push ⟨UnixPath.render place⟩ "gitdir".toList) = some content ∧
    tree.locate root = some here ∧
      tree.locate (UnixPath.push ⟨UnixPath.render place⟩ (trim content)) = some (here ++ [".git".toList])

/-- The common directory by the names that were written is missing, inside, the git dir itself,
or where its own `commondir` file leads from the place of the git dir. -/
def CommonAgrees : Prop :=
  ∀ names place content common, Linked tree root names place →
    tree.readToString (UnixPath.push ⟨UnixPath.render place⟩ "commondir".toList) = some content →
      tree.locate ⟨UnixPath.render (UnixPath.resolve names ⟨trim content⟩)⟩ = some common →
        Inside tree root (UnixPath.resolve names ⟨trim content⟩) ∨ Inside tree root common ∨ common = place ∨
          tree.locate (UnixPath.push ⟨UnixPath.render place⟩ (trim content)) = some common

variable {tree root} {names place here common : List (List Char)} {content : List Char}

theorem cwd_names : ∀ name ∈ tree.cwd, UnixPath.IsName name :=
  FileTree.isName_of_mem (by rw [tree.cwd_directory]; exact Option.some_ne_none _)

theorem given_names : ∀ name ∈ root.resolve tree.cwd, UnixPath.IsName name :=
  UnixPath.isName_of_mem_resolve cwd_names root

theorem lexical_push (plain : ∀ name ∈ names, UnixPath.IsName name) (text : List Char) :
    lexical (UnixPath.push ⟨UnixPath.render names⟩ text) = ⟨UnixPath.render (UnixPath.resolve names ⟨text⟩)⟩ := by
  have absolute : UnixPath.isAbsolute (UnixPath.push ⟨UnixPath.render names⟩ text).text = true := by
    cases starts : UnixPath.isAbsolute text with
    | false => rw [UnixPath.isAbsolute_push _ starts, UnixPath.isAbsolute_render]
    | true => rwa [UnixPath.push, if_pos starts]
  rw [lexical, if_pos absolute, UnixPath.locate_push, UnixPath.locate_render plain, UnixPath.resolve]

theorem absolutePath_eq (located : tree.locate root = some place) :
    absolutePath tree root = some (UnixPath.push ⟨UnixPath.render tree.cwd⟩ root.text) := by
  refine if_neg fun empty => ?_
  rw [FileTree.locate, if_pos empty] at located
  cases located

theorem isInside_iff (located : tree.locate root = some place) (plain : ∀ name ∈ names, UnixPath.IsName name) :
    isInside ⟨UnixPath.render (root.resolve tree.cwd)⟩ ⟨UnixPath.render place⟩ ⟨UnixPath.render names⟩ = true ↔
      Inside tree root names := by
  rw [isInside, Bool.or_eq_true, UnixPath.startsWith_render plain given_names,
    UnixPath.startsWith_render plain (FileTree.isName_of_locate located), Inside, located]
  simp only [Option.some.injEq, exists_eq_left']

theorem writtenGitDir_iff {written : UnixPath} :
    writtenGitDir tree root ⟨UnixPath.render (root.resolve tree.cwd)⟩ = some written ↔
      ∃ content dir, tree.readToString (dotGit root) = some content ∧ "gitdir:".toList ++ dir = trim content ∧
        written = ⟨UnixPath.render (UnixPath.resolve (root.resolve tree.cwd) ⟨trim dir⟩)⟩ := by
  simp only [writtenGitDir, Option.bind_eq_bind, Option.bind_eq_some_iff, List.isPrefixOf?_eq_some_iff_append_eq,
    Option.some.injEq, lexical_push given_names, eq_comm (a := written)]
  exact ⟨fun ⟨content, read, dir, cut, same⟩ => ⟨content, dir, read, cut, same⟩,
    fun ⟨content, dir, read, cut, same⟩ => ⟨content, read, dir, cut, same⟩⟩

theorem backLink_iff (located : tree.locate root = some here) :
    backLink tree ⟨UnixPath.render place⟩ = some (UnixPath.push ⟨UnixPath.render here⟩ ".git".toList) ↔
      ∃ content, tree.readToString (UnixPath.push ⟨UnixPath.render place⟩ "gitdir".toList) = some content ∧
        tree.locate (UnixPath.push ⟨UnixPath.render place⟩ (trim content)) = some (here ++ [".git".toList]) := by
  have plain := FileTree.isName_of_locate located
  have git : UnixPath.IsName ".git".toList := by decide
  simp only [backLink, Option.bind_eq_bind, Option.bind_eq_some_iff, UnixPath.push_render plain git]
  refine exists_congr fun content => and_congr_right fun _ => FileTree.canonicalize_iff fun name member => ?_
  obtain before | last := mem_snoc.mp member
  · exact plain name before
  · exact last ▸ git

theorem kept_iff (located : tree.locate root = some here) (plain : ∀ name ∈ names, UnixPath.IsName name)
    (plain' : ∀ name ∈ place, UnixPath.IsName name) :
    (!isInside ⟨UnixPath.render (root.resolve tree.cwd)⟩ ⟨UnixPath.render here⟩ ⟨UnixPath.render names⟩ &&
        (tree.canonicalize ⟨UnixPath.render names⟩).any fun resolved => resolved ≠ ⟨UnixPath.render place⟩ &&
          !isInside ⟨UnixPath.render (root.resolve tree.cwd)⟩ ⟨UnixPath.render here⟩ resolved) = true ↔
      ∃ common, tree.locate ⟨UnixPath.render names⟩ = some common ∧ ¬ Inside tree root names ∧ ¬ Inside tree root common ∧
        common ≠ place := by
  rw [Bool.and_eq_true, Bool.not_eq_true', Bool.eq_false_iff, ne_eq, isInside_iff located plain]
  cases leads : tree.locate ⟨UnixPath.render names⟩ with
  | none => simp [FileTree.canonicalize, leads]
  | some common =>
    have plain := FileTree.isName_of_locate leads
    rw [FileTree.canonicalize, leads, Option.map_some, Option.any_some, Bool.and_eq_true, decide_eq_true_iff,
      Bool.not_eq_true', Bool.eq_false_iff, ne_eq, ne_eq, isInside_iff located plain, UnixPath.mk.injEq,
      UnixPath.render_inj plain plain']
    simp only [Option.some.injEq, exists_eq_left']
    exact and_congr_right fun _ => and_comm

theorem Linked.isName (linked : Linked tree root names place) : ∀ name ∈ names, UnixPath.IsName name := by
  obtain ⟨content, dir, -, -, rfl⟩ := linked.named
  exact UnixPath.isName_of_mem_resolve given_names _

/-- The git dir is listed as it was written, and after it the common directory if it is outside. -/
theorem Linked.dirs (linked : Linked tree root names place) : ∃ commons,
    linkedGitDirs tree root = ⟨UnixPath.render names⟩ :: commons ∧ ∀ dir, dir ∈ commons ↔ ∃ content common,
      tree.readToString (UnixPath.push ⟨UnixPath.render place⟩ "commondir".toList) = some content ∧
        tree.locate ⟨UnixPath.render (UnixPath.resolve names ⟨trim content⟩)⟩ = some common ∧
          ¬ Inside tree root (UnixPath.resolve names ⟨trim content⟩) ∧ ¬ Inside tree root common ∧ common ≠ place ∧
            dir = ⟨UnixPath.render (UnixPath.resolve names ⟨trim content⟩)⟩ := by
  obtain ⟨content, here, read, located, points⟩ := linked.back
  have plain := FileTree.isName_of_locate linked.leads
  have named : writtenGitDir tree root ⟨UnixPath.render (root.resolve tree.cwd)⟩ = some ⟨UnixPath.render names⟩ := by
    obtain ⟨content, dir, read, cut, rfl⟩ := linked.named
    exact writtenGitDir_iff.mpr ⟨content, dir, read, cut, rfl⟩
  have outside : isInside ⟨UnixPath.render (root.resolve tree.cwd)⟩ ⟨UnixPath.render here⟩ ⟨UnixPath.render names⟩ = false :=
    Bool.eq_false_iff.mpr fun inside => linked.outside.1 ((isInside_iff located linked.isName).mp inside)
  have outside' : isInside ⟨UnixPath.render (root.resolve tree.cwd)⟩ ⟨UnixPath.render here⟩ ⟨UnixPath.render place⟩ = false :=
    Bool.eq_false_iff.mpr fun inside => linked.outside.2 ((isInside_iff located plain).mp inside)
  rw [linkedGitDirs, absolutePath_eq located, (FileTree.canonicalize_iff (FileTree.isName_of_locate located)).mpr located]
  dsimp only
  rw [lexical_push cwd_names, named, Option.bind_some, (FileTree.canonicalize_iff plain).mpr linked.leads, Option.map_some]
  dsimp only
  rw [outside, outside', (backLink_iff located).mpr ⟨content, read, points⟩, if_neg (by simp)]
  refine ⟨_, rfl, fun dir => ?_⟩
  rw [Option.mem_toList, Option.filter_eq_some_iff, writtenCommonDir, Option.map_eq_some_iff]
  constructor
  · rintro ⟨⟨content, read, rfl⟩, kept⟩
    rw [lexical_push linked.isName] at kept ⊢
    obtain ⟨common, leads, apart⟩ :=
      (kept_iff located (UnixPath.isName_of_mem_resolve linked.isName _) plain).mp kept
    exact ⟨content, common, read, leads, apart.1, apart.2.1, apart.2.2, rfl⟩
  · rintro ⟨content, common, read, leads, apart, apart', differ, rfl⟩
    exact ⟨⟨content, read, lexical_push linked.isName _⟩,
      (kept_iff located (UnixPath.isName_of_mem_resolve linked.isName _) plain).mpr ⟨common, leads, apart, apart', differ⟩⟩

theorem linked_of_ne_nil (some_ : linkedGitDirs tree root ≠ []) : ∃ names place, Linked tree root names place := by
  unfold linkedGitDirs at some_
  split at some_
  next given real absolute canonical =>
    obtain ⟨here, located, rfl⟩ := Option.map_eq_some_iff.mp canonical
    rw [absolutePath_eq located, Option.some.injEq] at absolute
    subst absolute
    rw [lexical_push cwd_names] at some_
    dsimp only at some_
    split at some_
    next => exact absurd rfl some_
    next written gitdir found =>
      obtain ⟨_, named, found⟩ := Option.bind_eq_some_iff.mp found
      obtain ⟨_, resolved, same⟩ := Option.map_eq_some_iff.mp found
      cases same
      obtain ⟨place, leads, rfl⟩ := Option.map_eq_some_iff.mp resolved
      obtain ⟨content, dir, read, cut, rfl⟩ := writtenGitDir_iff.mp named
      split at some_
      next => exact absurd rfl some_
      next checked =>
        simp only [Bool.or_eq_true, decide_eq_true_eq, not_or, ne_eq, not_not] at checked
        obtain ⟨⟨outside, outside'⟩, back⟩ := checked
        obtain ⟨content', read', points⟩ := (backLink_iff located).mp back
        exact ⟨_, place, ⟨content, dir, read, cut, rfl⟩, leads,
          ⟨fun inside => outside ((isInside_iff located (UnixPath.isName_of_mem_resolve given_names _)).mpr inside),
            fun inside => outside' ((isInside_iff located (FileTree.isName_of_locate leads)).mpr inside)⟩,
          ⟨content', here, read', located, points⟩⟩
  next => exact absurd rfl some_

theorem Linked.pointsBack (linked : Linked tree root names place) : PointsBack tree root ⟨UnixPath.render place⟩ := by
  obtain ⟨content, here, read, located, points⟩ := linked.back
  have back := (backLink_iff located).mpr ⟨content, read, points⟩
  have real := (FileTree.canonicalize_iff (FileTree.isName_of_locate located)).mpr located
  obtain ⟨content, -, leads⟩ := Option.bind_eq_some_iff.mp back
  exact ⟨_, back, FileTree.canonicalize_push (by decide) real leads⟩

theorem commonDir_iff (plain : ∀ name ∈ common, UnixPath.IsName name) :
    commonDir tree ⟨UnixPath.render place⟩ = some ⟨UnixPath.render common⟩ ↔
      ∃ content, tree.readToString (UnixPath.push ⟨UnixPath.render place⟩ "commondir".toList) = some content ∧
        tree.locate (UnixPath.push ⟨UnixPath.render place⟩ (trim content)) = some common := by
  simp only [commonDir, Option.bind_eq_bind, Option.bind_eq_some_iff]
  exact exists_congr fun content => and_congr_right fun _ => FileTree.canonicalize_iff plain

/-- Nothing foreign is mounted exactly if the common directories agree. -/
theorem mountsOwn_iff (tree : FileTree) (root : UnixPath) :
    MountsOwn tree root (linkedGitDirs tree root) ↔ CommonAgrees tree root := by
  constructor
  · intro own names place content common linked read leads
    obtain ⟨commons, dirs, mem⟩ := linked.dirs
    have plain := FileTree.isName_of_locate linked.leads
    have plain' := FileTree.isName_of_locate leads
    rw [dirs] at own
    obtain none | ⟨gitdir, -, first, all⟩ := own
    · cases none
    · rw [List.head?_cons, Option.bind_some, (FileTree.canonicalize_iff plain).mpr linked.leads, Option.some.injEq] at first
      subst first
      by_contra foreign
      simp only [not_or] at foreign
      obtain ⟨outside, outside', differ, elsewhere⟩ := foreign
      have mounted := (mem _).mpr ⟨content, common, read, leads, outside, outside', differ, rfl⟩
      obtain same | ⟨target, denotes, same⟩ := all _ (List.mem_cons_of_mem _ mounted)
      · rw [(FileTree.canonicalize_iff plain).mp same, Option.some.injEq] at leads
        exact differ leads.symm
      · rw [(FileTree.canonicalize_iff plain').mpr leads, Option.some.injEq] at same
        subst same
        obtain ⟨content', read', denoted⟩ := (commonDir_iff plain').mp denotes
        rw [read, Option.some.injEq] at read'
        exact elsewhere (read' ▸ denoted)
  · intro agrees
    by_cases none : linkedGitDirs tree root = []
    · exact .inl none
    · obtain ⟨names, place, linked⟩ := linked_of_ne_nil none
      obtain ⟨commons, dirs, mem⟩ := linked.dirs
      have resolved := (FileTree.canonicalize_iff (FileTree.isName_of_locate linked.leads)).mpr linked.leads
      rw [dirs]
      refine .inr ⟨_, linked.pointsBack, resolved, List.forall_mem_cons.mpr ⟨.inl resolved, fun dir mounted => ?_⟩⟩
      obtain ⟨content, common, read, leads, outside, outside', differ, rfl⟩ := (mem dir).mp mounted
      have plain := FileTree.isName_of_locate leads
      obtain inside | inside | same | denotes := agrees names place content common linked read leads
      · exact absurd inside outside
      · exact absurd inside outside'
      · exact absurd same differ
      · exact .inr ⟨_, (commonDir_iff plain).mpr ⟨content, read, denotes⟩, (FileTree.canonicalize_iff plain).mpr leads⟩

/-- A worktree whose git dir is named through a link at the top. -/
def linkedAtTop : FileTree :=
  .ofEntries
    [([], .directory), (["wt".toList], .directory),
      (["wt".toList, ".git".toList], .file (some "gitdir: /link\n".toList)),
      (["link".toList], .symlink "/main/.git/worktrees/wt".toList), (["main".toList], .directory),
      (["main".toList, ".git".toList], .directory), (["main".toList, ".git".toList, "worktrees".toList], .directory),
      (["main".toList, ".git".toList, "worktrees".toList, "wt".toList], .directory),
      (["main".toList, ".git".toList, "worktrees".toList, "wt".toList, "gitdir".toList],
        .file (some "/wt/.git\n".toList)),
      (["main".toList, ".git".toList, "worktrees".toList, "wt".toList, "commondir".toList], .file (some "../..\n".toList))]
    (by decide +kernel) (by decide +kernel)

/-- Everything there is gets mounted. -/
theorem linkedAtTop_not_mountsOwn :
    ¬ MountsOwn linkedAtTop ⟨"/wt".toList⟩ (linkedGitDirs linkedAtTop ⟨"/wt".toList⟩) := by
  have dirs : linkedGitDirs linkedAtTop ⟨"/wt".toList⟩ = [⟨"/link".toList⟩, ⟨"/".toList⟩] := by decide +kernel
  have gitdir : linkedAtTop.canonicalize ⟨"/link".toList⟩ = some ⟨"/main/.git/worktrees/wt".toList⟩ := by decide +kernel
  have top : linkedAtTop.canonicalize ⟨"/".toList⟩ = some ⟨"/".toList⟩ := by decide +kernel
  have denotes : commonDir linkedAtTop ⟨"/main/.git/worktrees/wt".toList⟩ = some ⟨"/main/.git".toList⟩ := by
    decide +kernel
  rw [dirs]
  rintro (none | ⟨named, -, first, all⟩)
  · cases none
  · rw [List.head?_cons, Option.bind_some, gitdir, Option.some.injEq] at first
    subst first
    obtain same | ⟨common, denoted, same⟩ := all ⟨"/".toList⟩ (List.mem_cons_of_mem _ List.mem_cons_self)
    · rw [top] at same
      exact absurd same (by decide)
    · rw [denotes] at denoted
      rw [top, ← denoted] at same
      exact absurd same (by decide)

end Checkout

end EkaCI
