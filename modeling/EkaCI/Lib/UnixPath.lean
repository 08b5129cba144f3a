import EkaCI.Lib.Lines

/-! Paths as texts, and the places they lead to. A component `..` takes back the one before
it, and a component that starts at the top replaces everything before it. -/

namespace EkaCI.Lib

structure UnixPath where
  text : List Char
  deriving DecidableEq

namespace UnixPath

/-- What stands between the slashes. Empty components and `.` stay where they are. -/
def components (text : List Char) : List (List Char) :=
  (text.splitOn '/').filter fun name => name ≠ [] ∧ name ≠ ['.']

def isAbsolute (text : List Char) : Bool := text.head? = some '/'

/-- A root, or a dot at the beginning, and the names: what paths are compared by. -/
def parts (text : List Char) : List (List Char) :=
  (if isAbsolute text then [['/']] else if (text.splitOn '/').head? = some ['.'] then [['.']] else []) ++ components text

def startsWith (path base : UnixPath) : Bool := parts base.text <+: parts path.text

/-- The text of an absolute path with these names. -/
def render (names : List (List Char)) : List Char := if names = [] then ['/'] else names.flatMap ('/' :: ·)

/-- An absolute part replaces the path; any other is put after a slash. -/
def push (path : UnixPath) (part : List Char) : UnixPath :=
  if isAbsolute part then ⟨part⟩
  else if path.text = [] ∨ path.text.getLast? = some '/' then ⟨path.text ++ part⟩
  else ⟨path.text ++ '/' :: part⟩

def pushAll (path : UnixPath) (parts : List (List Char)) : UnixPath := parts.foldl push path

def enter (place : List (List Char)) (name : List Char) : List (List Char) :=
  if name = ['.', '.'] then place.dropLast else place ++ [name]

def walk (place : List (List Char)) (names : List (List Char)) : List (List Char) := names.foldl enter place

/-- The directory names from the top to where the path leads. -/
def locate (path : UnixPath) : List (List Char) := walk [] (components path.text)

/-- Where the path leads for a process that works in a directory. -/
def resolve (cwd : List (List Char)) (path : UnixPath) : List (List Char) :=
  walk (if isAbsolute path.text then [] else cwd) (components path.text)

/-- How far below its start a walk ends, if it never climbs above it. -/
def descend : Nat → List (List Char) → Option Nat
  | depth, [] => some depth
  | depth, name :: rest =>
    if name = ['.', '.'] then
      match depth with
      | 0 => none
      | depth + 1 => descend depth rest
    else descend (depth + 1) rest

@[simp] theorem walk_nil (place : List (List Char)) : walk place [] = place := rfl

@[simp] theorem walk_cons (place names : List (List Char)) (name : List Char) :
    walk place (name :: names) = walk (enter place name) names := rfl

@[simp] theorem walk_append (place first second : List (List Char)) :
    walk place (first ++ second) = walk (walk place first) second := by
  simp [walk]

theorem components_nil : components [] = [] := rfl

theorem components_append_slash (first second : List Char) :
    components (first ++ '/' :: second) = components first ++ components second := by
  simp only [components, List.splitOn_eq_splitOnP]
  rw [List.splitOnP_append_cons (p := (· == '/')) _ _ (beq_self_eq_true '/'), List.filter_append]

/-- One component, and no special one. -/
def IsName (text : List Char) : Prop := text ≠ [] ∧ '/' ∉ text ∧ text ≠ ['.'] ∧ text ≠ ['.', '.']

instance (text : List Char) : Decidable (IsName text) := inferInstanceAs (Decidable (_ ∧ _))

variable {text name part rest : List Char} {depth : Nat} {path : UnixPath}
  {character : Char}

theorem IsName.components (name : IsName text) : components text = [text] := by
  obtain ⟨nonempty, single, notHere, -⟩ := name
  rw [UnixPath.components, List.splitOn_eq_singleton single]
  simp [nonempty, notHere]

theorem IsName.relative (name : IsName text) : isAbsolute text = false := by
  obtain ⟨-, single, -, -⟩ := name
  refine Bool.eq_false_iff.mpr fun absolute => single ?_
  exact List.mem_of_mem_head? (of_decide_eq_true absolute)

theorem IsName.enter (name : IsName text) (place : List (List Char)) :
    enter place text = place ++ [text] := if_neg name.2.2.2

/-- A part is entered from the place of the path, unless it is absolute. -/
theorem locate_push (path : UnixPath) (part : List Char) :
    locate (path.push part) =
      walk (if isAbsolute part = true then [] else locate path) (components part) := by
  unfold push
  split
  · rfl
  split
  next ends =>
    rcases ends with empty | slash
    · simp [locate, empty, components_nil]
    · obtain ⟨init, text⟩ := List.getLast?_eq_some_iff.mp slash
      have before : components path.text = components init := by
        rw [text, components_append_slash, components_nil, List.append_nil]
      rw [locate, locate, before, text, List.append_assoc, List.singleton_append, components_append_slash, walk_append]
  next =>
    rw [locate, locate, components_append_slash, walk_append]

theorem mem_walk {place names : List (List Char)} (member : name ∈ walk place names) :
    name ∈ place ∨ name ∈ names := by
  induction names generalizing place with
  | nil => exact Or.inl member
  | cons first rest ih =>
    rcases ih member with entered | later
    · unfold enter at entered
      split at entered
      · exact Or.inl ((List.dropLast_sublist place).mem entered)
      · rcases List.mem_append.mp entered with before | last
        · exact Or.inl before
        · exact Or.inr (List.mem_cons.mpr (Or.inl (List.mem_singleton.mp last)))
    · exact Or.inr (List.mem_cons_of_mem first later)

/-- A walk that never climbs above its start leaves what lies above untouched. -/
theorem walk_below {names : List (List Char)} (base place : List (List Char))
    (below : descend place.length names = some depth) :
    walk (base ++ place) names = base ++ walk place names ∧ (walk place names).length = depth := by
  induction names generalizing place with
  | nil =>
    simp only [descend, Option.some.injEq] at below
    exact ⟨rfl, below⟩
  | cons name rest ih =>
    simp only [walk_cons, enter]
    unfold descend at below
    split at below
    next up =>
      rw [if_pos up, if_pos up]
      split at below
      next => cases below
      next depth' length =>
        have nonempty : place ≠ [] := fun empty => by simp [empty] at length
        rw [List.dropLast_append_of_ne_nil nonempty]
        apply ih place.dropLast
        rw [List.length_dropLast, length]
        exact below
    next other =>
      rw [if_neg other, if_neg other, List.append_assoc]
      apply ih (place ++ [name])
      rwa [List.length_append, List.length_singleton]

/-- A walk that climbs above its start does not come back under a name it does not say. -/
theorem not_mem_walk_of_climbs {fresh : List Char} {names : List (List Char)} (place : List (List Char))
    (climbs : descend place.length names = none) (unnamed : fresh ∉ names) (apart : fresh ∉ place) :
    fresh ∉ walk (fresh :: place) names := by
  induction names generalizing place with
  | nil => cases climbs
  | cons name rest ih =>
    have later : fresh ∉ rest := fun member => unnamed (List.mem_cons_of_mem name member)
    simp only [walk_cons, enter]
    unfold descend at climbs
    split at climbs
    next up =>
      rw [if_pos up]
      cases place with
      | nil =>
        intro member
        rcases mem_walk member with kept | named
        · cases kept
        · exact later named
      | cons first place =>
        rw [List.dropLast_cons_of_ne_nil (List.cons_ne_nil first place)]
        refine ih _ ?_ later fun member => apart ((List.dropLast_sublist _).mem member)
        rwa [List.length_dropLast]
    next other =>
      rw [if_neg other, List.cons_append]
      refine ih (place ++ [name]) ?_ later ?_
      · rwa [List.length_append, List.length_singleton]
      · intro member
        rcases List.mem_append.mp member with before | last
        · exact apart before
        · exact unnamed (List.mem_cons.mpr (Or.inl (List.mem_singleton.mp last)))

theorem descend_append {first second : List (List Char)} :
    descend depth (first ++ second) = (descend depth first).bind (descend · second) := by
  induction first generalizing depth with
  | nil => rfl
  | cons name rest ih =>
    simp only [List.cons_append, descend]
    split
    · cases depth with
      | zero => rfl
      | succ depth => exact ih
    · exact ih

/-- Names lead down one after the other. -/
theorem walk_down {names : List (List Char)} (down : ∀ name ∈ names, name ≠ ['.', '.']) (place : List (List Char)) :
    walk place names = place ++ names := by
  induction names generalizing place with
  | nil => exact (List.append_nil place).symm
  | cons name rest ih =>
    rw [walk_cons, enter, if_neg (down name List.mem_cons_self),
      ih fun other member => down other (List.mem_cons_of_mem name member)]
    simp

theorem walk_names {names : List (List Char)} (plain : ∀ name ∈ names, IsName name) (place : List (List Char)) :
    walk place names = place ++ names := walk_down (fun name member => (plain name member).2.2.2) place

theorem components_slash (text : List Char) : components ('/' :: text) = components text :=
  components_append_slash [] text

/-- The names that a path is rendered from are read back. -/
theorem components_render {names : List (List Char)} (plain : ∀ name ∈ names, IsName name) :
    components (render names) = names := by
  have all : components (names.flatMap ('/' :: ·)) = names := by
    induction names with
    | nil => rfl
    | cons name rest ih =>
      have own := (plain name List.mem_cons_self).components
      have ih := ih fun other member => plain other (List.mem_cons_of_mem name member)
      rw [List.flatMap_cons, List.cons_append, components_slash]
      cases rest with
      | nil => rw [List.flatMap_nil, List.append_nil, own]
      | cons next rest =>
        rw [List.flatMap_cons, List.cons_append, components_slash] at ih
        rw [List.flatMap_cons, List.cons_append, components_append_slash, own, ih, List.singleton_append]
  rw [render]
  split
  next none => rw [none, components_slash, components_nil]
  next => exact all

theorem locate_render {names : List (List Char)} (plain : ∀ name ∈ names, IsName name) : locate ⟨render names⟩ = names := by
  rw [locate, components_render plain, walk_names plain, List.nil_append]

@[simp] theorem pushAll_nil (path : UnixPath) : path.pushAll [] = path := rfl

@[simp] theorem pushAll_cons (path : UnixPath) (part : List Char) (parts : List (List Char)) :
    path.pushAll (part :: parts) = (path.push part).pushAll parts := rfl

theorem locate_pushAll {parts : List (List Char)} (path : UnixPath) (relative : ∀ part ∈ parts, isAbsolute part = false) :
    locate (path.pushAll parts) = walk (locate path) (parts.flatMap components) := by
  induction parts generalizing path with
  | nil => rfl
  | cons part rest ih =>
    have here : isAbsolute part = false := relative part List.mem_cons_self
    rw [pushAll_cons, ih _ fun other member => relative other (List.mem_cons_of_mem part member), locate_push,
      if_neg (by simp [here]), List.flatMap_cons, walk_append]

/-- Past an absolute part nothing is left of the path before. -/
theorem mem_locate_pushAll_absolute {parts : List (List Char)} (member : part ∈ parts)
    (absolute : isAbsolute part = true) (found : name ∈ locate (path.pushAll parts)) : name ∈ parts.flatMap components := by
  induction parts generalizing path part with
  | nil => cases member
  | cons first rest ih =>
    rw [List.flatMap_cons, List.mem_append]
    by_cases later : ∃ other ∈ rest, isAbsolute other = true
    · obtain ⟨other, listed, starts⟩ := later
      exact Or.inr (@ih _ (path.push first) listed starts found)
    · have relative : ∀ other ∈ rest, isAbsolute other = false := by
        intro other listed
        exact Bool.eq_false_iff.mpr fun starts => later ⟨other, listed, starts⟩
      have same : part = first := by
        rcases List.mem_cons.mp member with same | listed
        · exact same
        · exact absurd absolute (by simp [relative part listed])
      subst first
      rw [pushAll_cons, locate_pushAll _ relative, locate_push, if_pos absolute] at found
      rcases mem_walk found with entered | named
      · rcases mem_walk entered with top | named
        · cases top
        · exact Or.inl named
      · exact Or.inr named

/-- There is always a directory at the top with a name that has not been used. -/
theorem exists_fresh (names : List (List Char)) : ∃ fresh, fresh ∉ names ∧ locate ⟨'/' :: fresh⟩ = [fresh] := by
  refine ⟨List.replicate (names.flatten.length + 3) 'x', ?_, ?_⟩
  · intro member
    have short := (List.sublist_flatten_of_mem member).length_le
    rw [List.length_replicate] at short
    omega
  · have single : (List.replicate (names.flatten.length + 3) 'x').splitOn '/' =
        [List.replicate (names.flatten.length + 3) 'x'] := by
      refine List.splitOnP_eq_singleton fun character member => ?_
      rw [List.eq_of_mem_replicate member]
      rfl
    have named : components (List.replicate (names.flatten.length + 3) 'x') =
        [List.replicate (names.flatten.length + 3) 'x'] := by
      rw [components, single]
      simp [List.replicate_succ]
    have split := components_append_slash [] (List.replicate (names.flatten.length + 3) 'x')
    rw [List.nil_append, components_nil, List.nil_append, named] at split
    have other : List.replicate (names.flatten.length + 3) 'x' ≠ ['.', '.'] := by simp [List.replicate_succ]
    rw [locate, split, walk_cons, walk_nil, enter, if_neg other, List.nil_append]

/-- Where a relative part is put. -/
theorem push_cases (path : UnixPath) (relative : isAbsolute part = false) :
    (path.text = [] ∧ (path.push part).text = part) ∨
      ∃ init, path.text ≠ [] ∧ (path.text = init ∨ path.text = init ++ ['/']) ∧
        (path.push part).text = init ++ '/' :: part := by
  rw [push, if_neg (by simp [relative])]
  by_cases empty : path.text = []
  · rw [if_pos (.inl empty)]
    exact .inl ⟨empty, by rw [empty]; rfl⟩
  · split
    next ends =>
      obtain ⟨init, text⟩ := List.getLast?_eq_some_iff.mp (ends.resolve_left empty)
      exact .inr ⟨init, empty, .inr text, by rw [text, List.append_assoc]; rfl⟩
    next => exact .inr ⟨path.text, empty, .inl rfl, rfl⟩

theorem isAbsolute_push (path : UnixPath) (relative : isAbsolute part = false) :
    isAbsolute (path.push part).text = isAbsolute path.text := by
  obtain ⟨empty, pushed⟩ | ⟨init, nonempty, same | same, pushed⟩ := path.push_cases relative
  · rw [pushed, relative, empty]
    rfl
  · rw [pushed, same, isAbsolute, List.head?_append_of_ne_nil _ (by rwa [← same]), isAbsolute]
  · rw [pushed, same]
    cases init <;> rfl

theorem components_push (path : UnixPath) (relative : isAbsolute part = false) :
    components (path.push part).text = components path.text ++ components part := by
  obtain ⟨empty, pushed⟩ | ⟨init, -, same | same, pushed⟩ := path.push_cases relative
  · rw [pushed, empty]
    rfl
  · rw [pushed, same, components_append_slash]
  · rw [pushed, same, components_append_slash, components_append_slash, components_nil, List.append_nil]

theorem resolve_push (cwd : List (List Char)) (path : UnixPath) (relative : isAbsolute part = false) :
    resolve cwd (path.push part) = walk (resolve cwd path) (components part) := by
  rw [resolve, resolve, isAbsolute_push path relative, components_push path relative, walk_append]

/-- What a path says of where it starts. -/
def marker (text : List Char) : List (List Char) :=
  if isAbsolute text then [['/']] else if (text.splitOn '/').head? = some ['.'] then [['.']] else []

theorem parts_eq (text : List Char) : parts text = marker text ++ components text := rfl

theorem IsName.marker (name : IsName text) : marker text = [] := by
  rw [UnixPath.marker, if_neg (by simp [name.relative]), List.splitOn_eq_singleton name.2.1, if_neg]
  simpa using name.2.2.1

theorem marker_cons (slash : character ≠ '/') (dot : character ≠ '.') : marker (character :: rest) = [] := by
  have first : ((character :: rest).splitOn '/').head? ≠ some ['.'] := by
    rw [List.splitOn_cons_eq_if_modifyHead, if_neg (by simpa using slash), List.head?_modifyHead]
    intro same
    obtain ⟨more, -, named⟩ := Option.map_eq_some_iff.mp same
    exact dot (List.cons.inj named).1
  rw [marker, isAbsolute, List.head?_cons, if_neg (by simpa using slash), if_neg first]

theorem relative_of_marker (plain : marker part = []) : isAbsolute part = false := by
  rw [marker] at plain
  split at plain
  next => cases plain
  next relative => rwa [Bool.not_eq_true] at relative

theorem marker_push (path : UnixPath) (plain : marker part = []) :
    marker (path.push part).text = marker path.text := by
  have relative := relative_of_marker plain
  have first : ∀ (init more : List Char), ((init ++ '/' :: more).splitOn '/').head? = (init.splitOn '/').head? := by
    intro init more
    rw [List.splitOn_append_cons_self, List.head?_append_of_ne_nil _ (List.splitOn_ne_nil _ _)]
  obtain ⟨empty, pushed⟩ | ⟨init, -, same, pushed⟩ := path.push_cases relative
  · rw [pushed, plain, empty]
    rfl
  · have head : (path.text.splitOn '/').head? = (init.splitOn '/').head? := by
      obtain same | same := same
      · rw [same]
      · rw [same, first]
    rw [marker, marker, isAbsolute_push path relative, pushed, first, head]

theorem parts_push (path : UnixPath) (plain : marker part = []) :
    parts (path.push part).text = parts path.text ++ components part := by
  rw [parts_eq, parts_eq, marker_push path plain, components_push path (relative_of_marker plain), List.append_assoc]

/-- A component says nothing of where the path starts. -/
theorem ne_of_mem_components (member : name ∈ components text) : name ≠ [] ∧ '/' ∉ name ∧ name ≠ ['.'] := by
  obtain ⟨piece, kept⟩ := List.mem_filter.mp member
  obtain ⟨nonempty, other⟩ := of_decide_eq_true kept
  exact ⟨nonempty, not_mem_of_mem_splitOn piece, other⟩

theorem components_cons (slash : character ≠ '/') (dot : character ≠ '.') :
    ∃ more others, components (character :: rest) = (character :: more) :: others := by
  rw [components, List.splitOn_cons_eq_if_modifyHead, if_neg (by simpa using slash)]
  cases found : rest.splitOn '/' with
  | nil => exact absurd found (List.splitOn_ne_nil '/' rest)
  | cons first others =>
    refine ⟨first, _, List.filter_cons_of_pos ?_⟩
    simp [dot]

/-- The names that stand for a start. -/
def isMarker (name : List Char) : Bool := name = ['/'] || name = ['.']

theorem filter_isMarker_components (text : List Char) : (components text).filter isMarker = [] := by
  refine List.filter_eq_nil_iff.mpr fun name member => ?_
  obtain ⟨-, inside, other⟩ := ne_of_mem_components member
  have slash : name ≠ ['/'] := by
    rintro rfl
    exact inside List.mem_cons_self
  simp [isMarker, slash, other]

theorem filter_isMarker_parts (text : List Char) : (parts text).filter isMarker = marker text := by
  rw [parts_eq, List.filter_append, filter_isMarker_components, List.append_nil, marker]
  split_ifs <;> rfl

/-- What one path says beyond another, where it says nothing of a start. -/
theorem components_of_parts {base : UnixPath} {rest : List (List Char)}
    (more : parts path.text = parts base.text ++ rest) (plain : rest.filter isMarker = []) :
    isAbsolute path.text = isAbsolute base.text ∧ components path.text = components base.text ++ rest := by
  have start : marker path.text = marker base.text := by
    have markers := congrArg (List.filter isMarker) more
    rwa [List.filter_append, filter_isMarker_parts, filter_isMarker_parts, plain, List.append_nil] at markers
  constructor
  · rw [marker, marker] at start
    split_ifs at start <;> simp_all
  · rw [parts_eq, parts_eq, start, List.append_assoc] at more
    exact List.append_cancel_left more

variable {names base place : List (List Char)}

theorem isAbsolute_render (names : List (List Char)) : isAbsolute (render names) = true := by
  unfold render
  split
  · rfl
  next some_ =>
    obtain ⟨name, rest, rfl⟩ := List.exists_cons_of_ne_nil some_
    rfl

theorem render_inj (plain : ∀ name ∈ names, IsName name) (plain' : ∀ name ∈ base, IsName name) :
    render names = render base ↔ names = base := by
  constructor
  · intro same
    rw [← locate_render plain, same, locate_render plain']
  · exact congrArg render

theorem startsWith_render (plain : ∀ name ∈ names, IsName name) (plain' : ∀ name ∈ base, IsName name) :
    startsWith ⟨render names⟩ ⟨render base⟩ = true ↔ base <+: names := by
  rw [startsWith, decide_eq_true_iff, parts_eq, parts_eq, marker, marker, isAbsolute_render, isAbsolute_render,
    components_render plain, components_render plain']
  exact List.prefix_append_right_inj _

/-- A name is put after the ones before it, also at the top. -/
theorem push_render (plain : ∀ name ∈ names, IsName name) (isName : IsName name) :
    push ⟨render names⟩ name = ⟨render (names ++ [name])⟩ := by
  rw [push, if_neg (by rw [isName.relative]; exact Bool.false_ne_true)]
  dsimp only
  cases names using List.reverseRecOn with
  | nil => exact congrArg UnixPath.mk (List.append_nil ('/' :: name)).symm
  | append_singleton before last =>
    have more (names : List (List Char)) : render (names ++ [last]) = (names ++ [last]).flatMap ('/' :: ·) :=
      if_neg (List.append_ne_nil_of_right_ne_nil names (List.cons_ne_nil _ _))
    obtain ⟨nonempty, single, -, -⟩ := plain last (List.mem_append_right before List.mem_cons_self)
    have ends : ¬ (render (before ++ [last]) = [] ∨ (render (before ++ [last])).getLast? = some '/') := by
      rw [more, List.flatMap_append, List.flatMap_singleton]
      rintro (empty | slash)
      · exact absurd empty (by simp)
      · rw [List.getLast?_append_of_ne_nil _ (List.cons_ne_nil _ _), List.getLast?_cons_of_ne_nil nonempty] at slash
        exact single (List.mem_of_getLast? slash)
    rw [if_neg ends, more, render, if_neg (List.append_ne_nil_of_right_ne_nil _ (List.cons_ne_nil _ _)),
      @List.flatMap_append _ _ (before ++ [last]), List.flatMap_singleton]

/-- A walk over components takes no name that a directory cannot have. -/
theorem isName_of_mem_walk (plain : ∀ name ∈ place, IsName name) :
    ∀ name ∈ walk place (components text), IsName name := by
  suffices ∀ names, (∀ name ∈ names, name ≠ [] ∧ '/' ∉ name ∧ name ≠ ['.']) → ∀ name ∈ walk place names, IsName name from
    this _ fun name member => ne_of_mem_components member
  intro names components
  induction names generalizing place with
  | nil => exact plain
  | cons first rest ih =>
    refine ih ?_ fun name member => components name (List.mem_cons_of_mem first member)
    intro name member
    unfold enter at member
    split at member
    · exact plain name ((List.dropLast_sublist place).mem member)
    next down =>
      obtain before | last := List.mem_append.mp member
      · exact plain name before
      · rw [List.mem_singleton.mp last]
        obtain ⟨nonempty, single, other⟩ := components first List.mem_cons_self
        exact ⟨nonempty, single, other, down⟩

theorem isName_of_mem_resolve (plain : ∀ name ∈ place, IsName name) (path : UnixPath) :
    ∀ name ∈ path.resolve place, IsName name := by
  unfold resolve
  split
  · exact isName_of_mem_walk fun name member => absurd member List.not_mem_nil
  · exact isName_of_mem_walk plain

end UnixPath

end EkaCI.Lib
