import EkaCI.Lib.UnixPath

/-! Trees of files with symbolic links, and how a path is resolved in them: piece by piece,
with a link replaced by the pieces of its target, and so many links at most. -/

namespace EkaCI.Lib

inductive FileNode where
  | directory
  /-- Without a content if it cannot be read as text. -/
  | file (content : Option (List Char))
  | symlink (target : List Char)
  deriving DecidableEq

/-- What there is at each place, by the names from the top. -/
structure FileTree where
  node : List (List Char) → Option FileNode
  root : node [] = some .directory
  parent : ∀ place name, node (place ++ [name]) ≠ none → node place = some .directory
  named : ∀ place name, node (place ++ [name]) ≠ none → UnixPath.IsName name
  /-- Where relative paths start. -/
  cwd : List (List Char)
  cwd_directory : node cwd = some .directory

namespace FileTree

variable (tree : FileTree)

/-- What stands between the slashes, with the empty pieces, which ask for a directory. -/
def pieces (text : List Char) : List (List Char) := text.splitOn '/'

/-- Pieces are entered one after the other, and a link leaves the rest to be followed. -/
def enter (follow : List (List Char) → List (List Char) → Option (List (List Char))) :
    List (List Char) → List (List Char) → Option (List (List Char))
  | place, [] => some place
  | place, name :: rest =>
    if name = [] ∨ name = ['.'] then enter follow place rest
    else if name = ['.', '.'] then enter follow place.dropLast rest
    else
      match tree.node (place ++ [name]) with
      | none => none
      | some .directory => enter follow (place ++ [name]) rest
      | some (.file _) => if rest = [] then some (place ++ [name]) else none
      | some (.symlink target) =>
        if target = [] then none else follow (if UnixPath.isAbsolute target then [] else place) (pieces target ++ rest)

/-- Where pieces lead from a directory, with a number of links at most. -/
def resolve : Nat → List (List Char) → List (List Char) → Option (List (List Char))
  | 0 => tree.enter fun _ _ => none
  | budget + 1 => tree.enter (resolve budget)

def maxSymlinks : Nat := 40

/-- The place that a path denotes. -/
def locate (path : UnixPath) : Option (List (List Char)) :=
  if path.text = [] then none
  else tree.resolve maxSymlinks (if UnixPath.isAbsolute path.text then [] else tree.cwd) (pieces path.text)

def canonicalize (path : UnixPath) : Option UnixPath := (tree.locate path).map fun place => ⟨UnixPath.render place⟩

def readToString (path : UnixPath) : Option (List Char) := do
  let place ← tree.locate path
  match tree.node place with
  | some (.file content) => content
  | _ => none

/-- There is a file or a directory, and no link. -/
def IsReal (place : List (List Char)) : Prop :=
  tree.node place = some .directory ∨ ∃ content, tree.node place = some (.file content)

/-- Neither empty nor one of the two names that every directory has. -/
def IsPlain (name : List Char) : Prop := ¬ (name = [] ∨ name = ['.']) ∧ name ≠ ['.', '.']

/-- How a resolution goes that comes to an end. -/
inductive Leads : Nat → List (List Char) → List (List Char) → List (List Char) → Prop where
  | done {budget : Nat} {place : List (List Char)} : Leads budget place [] place
  | skip {budget : Nat} {place rest target : List (List Char)} {name : List Char} (blank : name = [] ∨ name = ['.'])
      (leads : Leads budget place rest target) : Leads budget place (name :: rest) target
  | climb {budget : Nat} {place rest target : List (List Char)} (leads : Leads budget place.dropLast rest target) :
      Leads budget place (['.', '.'] :: rest) target
  | descend {budget : Nat} {place rest target : List (List Char)} {name : List Char} (plain : IsPlain name)
      (directory : tree.node (place ++ [name]) = some .directory) (leads : Leads budget (place ++ [name]) rest target) :
      Leads budget place (name :: rest) target
  | arrive {budget : Nat} {place : List (List Char)} {name : List Char} {content : Option (List Char)}
      (plain : IsPlain name) (file : tree.node (place ++ [name]) = some (.file content)) :
      Leads budget place [name] (place ++ [name])
  | follow {budget : Nat} {place rest target : List (List Char)} {name link : List Char} (plain : IsPlain name)
      (symlink : tree.node (place ++ [name]) = some (.symlink link)) (given : link ≠ [])
      (leads : Leads budget (if UnixPath.isAbsolute link then [] else place) (pieces link ++ rest) target) :
      Leads (budget + 1) place (name :: rest) target

variable {tree} {place names more target : List (List Char)} {budget : Nat}

/-- The next link is followed with one less to come. -/
theorem resolve_eq (budget : Nat) : tree.resolve budget =
    tree.enter fun place names => if budget = 0 then none else tree.resolve (budget - 1) place names := by
  cases budget <;> rfl

theorem leads_of_resolve (resolved : tree.resolve budget place names = some target) : tree.Leads budget place names target := by
  induction budget using Nat.strongRecOn generalizing place names with
  | _ budget links =>
    induction names generalizing place with
    | nil =>
      rw [resolve_eq, enter, Option.some.injEq] at resolved
      exact resolved ▸ .done
    | cons name rest ih =>
      rw [resolve_eq, enter] at resolved
      rw [resolve_eq] at ih
      split at resolved
      next blank => exact .skip blank (ih resolved)
      next named =>
        split at resolved
        next up =>
          subst up
          exact .climb (ih resolved)
        next down =>
          split at resolved
          next => cases resolved
          next directory => exact .descend ⟨named, down⟩ directory (ih resolved)
          next content file =>
            split at resolved
            next last =>
              cases resolved
              subst last
              exact .arrive ⟨named, down⟩ file
            next => cases resolved
          next link symlink =>
            split at resolved
            next => cases resolved
            next given =>
              split at resolved
              next => cases resolved
              next some_ =>
                obtain ⟨left, rfl⟩ := Nat.exists_eq_succ_of_ne_zero some_
                exact .follow ⟨named, down⟩ symlink given (links left (Nat.lt_succ_self left) resolved)

theorem resolve_of_leads (leads : tree.Leads budget place names target) : tree.resolve budget place names = some target := by
  induction leads with
  | done => rw [resolve_eq, enter]
  | skip blank _ ih =>
    rw [resolve_eq] at ih ⊢
    rw [enter, if_pos blank, ih]
  | climb _ ih =>
    rw [resolve_eq] at ih ⊢
    rw [enter, if_neg (by decide), if_pos rfl, ih]
  | descend plain directory _ ih =>
    rw [resolve_eq] at ih ⊢
    rw [enter, if_neg plain.1, if_neg plain.2, directory]
    exact ih
  | arrive plain file =>
    rw [resolve_eq, enter, if_neg plain.1, if_neg plain.2, file]
    exact if_pos rfl
  | follow plain symlink given _ ih =>
    rw [resolve_eq, enter, if_neg plain.1, if_neg plain.2, symlink]
    simpa [given] using ih

theorem dropLast_directory (directory : tree.node place = some .directory) :
    tree.node place.dropLast = some .directory := by
  cases place using List.reverseRecOn with
  | nil => exact directory
  | append_singleton place name =>
    rw [List.dropLast_concat]
    exact tree.parent place name (by rw [directory]; exact Option.some_ne_none _)

/-- From a directory a path leads to a file or a directory, never to a link. -/
theorem Leads.isReal (leads : tree.Leads budget place names target) (directory : tree.node place = some .directory) :
    tree.IsReal target := by
  induction leads with
  | done => exact .inl directory
  | skip blank _ ih => exact ih directory
  | climb _ ih => exact ih (dropLast_directory directory)
  | descend _ below _ ih => exact ih below
  | arrive _ file => exact .inr ⟨_, file⟩
  | follow _ _ _ _ ih =>
    refine ih ?_
    split
    · exact tree.root
    · exact directory

/-- Past a directory the resolution goes on from there. -/
theorem Leads.append (leads : tree.Leads budget place names target) (directory : tree.node target = some .directory) :
    ∃ left, ∀ last, tree.Leads left target more last → tree.Leads budget place (names ++ more) last := by
  induction leads with
  | @done budget place => exact ⟨budget, fun last next => next⟩
  | skip blank _ ih =>
    obtain ⟨left, goesOn⟩ := ih directory
    exact ⟨left, fun last next => .skip blank (goesOn last next)⟩
  | climb _ ih =>
    obtain ⟨left, goesOn⟩ := ih directory
    exact ⟨left, fun last next => .climb (goesOn last next)⟩
  | descend plain below _ ih =>
    obtain ⟨left, goesOn⟩ := ih directory
    exact ⟨left, fun last next => .descend plain below (goesOn last next)⟩
  | arrive _ file =>
    rw [file] at directory
    cases directory
  | follow plain symlink given _ ih =>
    obtain ⟨left, goesOn⟩ := ih directory
    refine ⟨left, fun last next => .follow plain symlink given ?_⟩
    have whole := goesOn last next
    rw [List.append_assoc] at whole
    exact whole

/-- An empty piece at the end only asks for a directory. -/
theorem Leads.of_append_blank (leads : tree.Leads budget place (names ++ [[]]) target) :
    tree.Leads budget place names target := by
  generalize whole : names ++ [[]] = asked at leads
  induction leads generalizing names with
  | done => exact absurd whole (List.append_ne_nil_of_right_ne_nil _ (List.cons_ne_nil _ _))
  | skip blank leads ih =>
    cases names with
    | nil =>
      cases whole
      exact leads
    | cons name rest =>
      cases whole
      exact .skip blank (ih rfl)
  | climb leads ih =>
    cases names with
    | nil => cases whole
    | cons name rest =>
      cases whole
      exact .climb (ih rfl)
  | descend plain directory leads ih =>
    cases names with
    | nil =>
      cases whole
      exact absurd (.inl rfl) plain.1
    | cons name rest =>
      cases whole
      exact .descend plain directory (ih rfl)
  | arrive plain file =>
    cases names with
    | nil =>
      cases whole
      exact absurd (.inl rfl) plain.1
    | cons name rest => cases rest <;> cases whole
  | follow plain symlink given leads ih =>
    cases names with
    | nil =>
      cases whole
      exact absurd (.inl rfl) plain.1
    | cons name rest =>
      cases whole
      exact .follow plain symlink given (ih (List.append_assoc _ _ _))

theorem IsReal.enter {name : List Char} (real : tree.IsReal (place ++ [name])) (plain : IsPlain name) (budget : Nat) :
    tree.Leads budget place [name] (place ++ [name]) := by
  obtain directory | ⟨content, file⟩ := real
  · exact .descend plain directory .done
  · exact .arrive plain file

theorem isName_of_mem (present : tree.node place ≠ none) : ∀ name ∈ place, UnixPath.IsName name := by
  induction place using List.reverseRecOn with
  | nil => exact List.forall_mem_nil _
  | append_singleton place last ih =>
    intro name member
    obtain above | here := List.mem_append.mp member
    · exact ih (by rw [tree.parent place last present]; exact Option.some_ne_none _) name above
    · exact List.mem_singleton.mp here ▸ tree.named place last present

theorem IsReal.ne_none (real : tree.IsReal place) : tree.node place ≠ none := by
  obtain directory | ⟨content, file⟩ := real
  · rw [directory]
    exact Option.some_ne_none _
  · rw [file]
    exact Option.some_ne_none _

theorem start_directory (path : UnixPath) :
    tree.node (if UnixPath.isAbsolute path.text then [] else tree.cwd) = some .directory := by
  split
  · exact tree.root
  · exact tree.cwd_directory

theorem isReal_of_locate {path : UnixPath} (found : tree.locate path = some place) : tree.IsReal place := by
  unfold locate at found
  split at found
  next => cases found
  next => exact (leads_of_resolve found).isReal (start_directory path)

theorem isName_of_locate {path : UnixPath} (found : tree.locate path = some place) :
    ∀ name ∈ place, UnixPath.IsName name := isName_of_mem (isReal_of_locate found).ne_none

theorem canonicalize_iff {path : UnixPath} (plain : ∀ name ∈ place, UnixPath.IsName name) :
    tree.canonicalize path = some ⟨UnixPath.render place⟩ ↔ tree.locate path = some place := by
  constructor
  · intro found
    obtain ⟨there, located, same⟩ := Option.map_eq_some_iff.mp found
    rwa [(UnixPath.render_inj (isName_of_locate located) plain).mp (UnixPath.mk.inj same)] at located
  · intro located
    rw [canonicalize, located, Option.map_some]

theorem pieces_append_slash (first second : List Char) : pieces (first ++ '/' :: second) = pieces first ++ pieces second := by
  simp only [pieces, List.splitOn_eq_splitOnP]
  exact List.splitOnP_append_cons _ _ (beq_self_eq_true '/')

/-- What stands in a directory is found under the path of the directory and its name. -/
theorem locate_push {root : UnixPath} {name : List Char} (found : tree.locate root = some place) (plain : IsPlain name)
    (single : '/' ∉ name) (real : tree.IsReal (place ++ [name])) : tree.locate (root.push name) = some (place ++ [name]) := by
  unfold locate at found
  split at found
  next => cases found
  next given =>
    have relative : UnixPath.isAbsolute name = false :=
      decide_eq_false fun absolute => single (List.mem_of_mem_head? absolute)
    have one : pieces name = [name] := List.splitOn_eq_singleton single
    have start (rest : List Char) : UnixPath.isAbsolute (root.text ++ rest) = UnixPath.isAbsolute root.text := by
      cases text : root.text with
      | nil => exact absurd text given
      | cons c text => rfl
    have leads := leads_of_resolve found
    have directory := tree.parent place name real.ne_none
    rw [UnixPath.push, if_neg (by rw [relative]; exact Bool.false_ne_true)]
    split
    next ends =>
      obtain ⟨init, text⟩ := List.getLast?_eq_some_iff.mp (ends.resolve_left given)
      have before : pieces root.text = pieces init ++ [[]] := by rw [text, pieces_append_slash]; rfl
      have whole : pieces (root.text ++ name) = pieces init ++ [name] := by
        rw [text, List.append_assoc, List.singleton_append, pieces_append_slash, one]
      rw [before] at leads
      obtain ⟨left, goesOn⟩ := leads.of_append_blank.append directory
      rw [locate, if_neg (List.append_ne_nil_of_left_ne_nil given _), start, whole]
      exact resolve_of_leads (goesOn _ (real.enter plain left))
    next =>
      have whole : pieces (root.text ++ '/' :: name) = pieces root.text ++ [name] := by rw [pieces_append_slash, one]
      obtain ⟨left, goesOn⟩ := leads.append directory
      rw [locate, if_neg (List.append_ne_nil_of_left_ne_nil given _), start, whole]
      exact resolve_of_leads (goesOn _ (real.enter plain left))

/-- A canonical path that is put together from a directory and a name is the one that the
directory's own path and the name lead to. -/
theorem canonicalize_push {root other real : UnixPath} {name : List Char} (isName : UnixPath.IsName name)
    (found : tree.canonicalize root = some real) (named : tree.canonicalize other = some (real.push name)) :
    tree.canonicalize (root.push name) = some (real.push name) := by
  obtain ⟨place, located, rfl⟩ := Option.map_eq_some_iff.mp found
  obtain ⟨there, reached, same⟩ := Option.map_eq_some_iff.mp named
  have real := isReal_of_locate reached
  have here := UnixPath.locate_render (isName_of_locate located)
  have below : there = place ++ [name] := by
    rw [← UnixPath.locate_render (isName_of_locate reached), same, UnixPath.locate_push, isName.relative,
      if_neg Bool.false_ne_true, here, isName.components, UnixPath.walk_cons, isName.enter, UnixPath.walk_nil]
  rw [← same, canonicalize, locate_push located ⟨fun blank => blank.elim isName.1 isName.2.2.1, isName.2.2.2⟩ isName.2.1
    (below ▸ real), below]
  rfl

def listed (entries : List (List (List Char) × FileNode)) (place : List (List Char)) : Option FileNode :=
  (entries.find? fun entry => entry.1 = place).map Prod.snd

/-- Every entry has a name and stands in a directory. -/
def Hangs (entries : List (List (List Char) × FileNode)) (entry : List (List Char) × FileNode) : Prop :=
  listed entries entry.1.dropLast = some .directory ∧ ∀ name ∈ entry.1.getLast?, UnixPath.IsName name

instance (entries : List (List (List Char) × FileNode)) (entry : List (List Char) × FileNode) :
    Decidable (Hangs entries entry) := inferInstanceAs (Decidable (_ ∧ _))

/-- The tree of a list of entries, with the top as the current directory. -/
def ofEntries (entries : List (List (List Char) × FileNode)) (root : listed entries [] = some .directory)
    (hangs : ∀ entry ∈ entries, Hangs entries entry) : FileTree :=
  have found {place : List (List Char)} (present : listed entries place ≠ none) :
      ∃ entry, Hangs entries entry ∧ entry.1 = place := by
    obtain ⟨node, found⟩ := Option.ne_none_iff_exists'.mp present
    obtain ⟨entry, found, -⟩ := Option.map_eq_some_iff.mp found
    exact ⟨entry, hangs entry (List.mem_of_find?_eq_some found), by simpa using List.find?_some found⟩
  { node := listed entries
    root := root
    parent := fun place name present => by
      obtain ⟨entry, hangs, same⟩ := found present
      rw [Hangs, same, List.dropLast_concat] at hangs
      exact hangs.1
    named := fun place name present => by
      obtain ⟨entry, hangs, same⟩ := found present
      rw [Hangs, same, List.getLast?_concat] at hangs
      exact hangs.2 name rfl
    cwd := []
    cwd_directory := root }

end FileTree

end EkaCI.Lib
