import EkaCI.Nix.PassthruTests

/-! When the generated text means what was asked. What an expression says comes from its
tokens, and each of these from a place in the text; there is no text that has other names in
it than the plain ones. -/

namespace EkaCI

open NixSyntax

/-- A component that the grammar reads as a name: no keyword, but for the one that may be a
name. -/
def Nameable (component : List Char) : Prop := component ∈ keywords.map String.toList → component = "or".toList

instance (component : List Char) : Decidable (Nameable component) := inferInstanceAs (Decidable (_ → _))

variable {component file first second name literal text rest front : List Char} {components : List (List Char)}
  {attrs names changedAttrs : List String} {left right tokens : List Token} {character : Char} {count : Nat}
  {originalFile : String}

theorem keyword_bare (keyword : component ∈ keywords.map String.toList) : needsQuoting component = false := by
  have all : ∀ name ∈ keywords.map String.toList, needsQuoting name = false := by decide
  exact all component keyword

theorem attr_component_iff : Attr (componentTokens component) component ↔ Nameable component := by
  rw [componentTokens, Nameable]
  constructor
  · intro attr keyword
    rw [if_neg (Bool.eq_false_iff.mp (keyword_bare keyword)), classify, if_pos keyword] at attr
    cases attr with
    | or _ free => exact free
  · intro free
    split
    next => exact .string component
    next =>
      rw [classify]
      split
      next keyword => exact .or component (free keyword)
      next => exact .word component

theorem attrPath_components (nonempty : components ≠ []) (free : ∀ component ∈ components, Nameable component) :
    ∃ tokens, accessorTokens components = .symbol '.' :: tokens ∧ AttrPath tokens components := by
  induction components with
  | nil => exact absurd rfl nonempty
  | cons component components ih =>
    have attr := attr_component_iff.mpr (free component List.mem_cons_self)
    cases components with
    | nil =>
      refine ⟨componentTokens component, ?_, .one attr⟩
      simp [accessorTokens]
    | cons second components =>
      obtain ⟨tokens, same, path⟩ := ih (List.cons_ne_nil second components)
        fun other member => free other (List.mem_cons_of_mem component member)
      refine ⟨componentTokens component ++ .symbol '.' :: tokens, ?_, .dot attr path⟩
      rw [← same]
      rfl

theorem attrPath_unquoted {attr : List Char} (unquoted : '"' ∉ attr) :
    attrPath false attr = attr.splitOn '.' := by
  induction attr with
  | nil => rfl
  | cons character rest ih =>
    rw [List.mem_cons, not_or] at unquoted
    rw [attrPath, if_neg (Ne.symm unquoted.1), ih unquoted.2, splitOn_cons]
    simp

theorem binds_source (plain : ∀ attr ∈ attrs, Plain false attr.toList)
    (free : ∀ attr ∈ attrs, ∀ component ∈ attr.toList.splitOn '.', Nameable component) :
    Binds (attrs.flatMap fun attr => bindingTokens attr.toList) (testBindings attrs) := by
  induction attrs with
  | nil => exact .nil
  | cons attr attrs ih =>
    have rest := ih (fun other member => plain other (List.mem_cons_of_mem attr member))
      fun other member => free other (List.mem_cons_of_mem attr member)
    obtain ⟨tokens, same, path⟩ := attrPath_components (List.splitOn_ne_nil _ _) (free attr List.mem_cons_self)
    rw [← attrPath_unquoted (plain attr List.mem_cons_self).quote] at path
    have value : Derives functionLevel ([.word "safeTests".toList] ++ ([.word "pkgs".toList] ++ .symbol '.' :: tokens))
        (testsOf (attrPath false attr.toList)) :=
      .apply (by decide) (.var (by decide) _) (.select (by decide) (.var (by decide) _) path)
    have binding := Binds.cons (.string attr.toList) value rest
    change Binds _ (.cons attr.toList (testsOf (attrPath false attr.toList)) (testBindings attrs))
    rw [List.flatMap_cons, bindingTokens, same]
    simpa only [List.append_assoc, List.cons_append, List.nil_append] using binding

theorem sourceTokens_eq (file : List Char) (attrs : List String) :
    sourceTokens file attrs =
      .keyword "let".toList :: ((preamble file).tokens ++ .keyword "in".toList ::
        (.symbol '{' :: ((attrs.flatMap fun attr => bindingTokens attr.toList) ++ [.symbol '}']))) := by
  simp [sourceTokens, importTokens, openTokens, preamble, Bindings.tokens, Expr.tokens]

theorem derives_source (plain : ∀ attr ∈ attrs, Plain false attr.toList)
    (free : ∀ attr ∈ attrs, ∀ component ∈ attr.toList.splitOn '.', Nameable component) :
    Derives functionLevel (sourceTokens file attrs) (passthruTests file attrs) := by
  rw [sourceTokens_eq]
  exact .letIn (by decide) (binds_tokens (preamble file) rfl) (.attrs (by decide) (binds_source plain free))

theorem stringTokens_append_inj (same : stringTokens first ++ left = stringTokens second ++ right) :
    first = second ∧ left = right := by
  by_cases empty : first = [] <;> by_cases other : second = [] <;> simp_all [stringTokens]

theorem attr_of_string {content : List Char} (attr : Attr tokens name)
    (same : tokens ++ left = stringTokens content ++ right) : name = content ∧ left = right := by
  cases attr with
  | word => cases same
  | or => cases same
  | string => exact stringTokens_append_inj same

theorem attr_of_component (attr : Attr tokens component) (same : tokens ++ left = componentTokens component ++ right) :
    Nameable component ∧ left = right := by
  by_cases quoted : needsQuoting component = true
  · refine ⟨fun keyword => ?_, ?_⟩
    · rw [keyword_bare keyword] at quoted
      cases quoted
    · rw [componentTokens, if_pos quoted] at same
      exact (attr_of_string attr same).2
  · rw [componentTokens, if_neg quoted] at same
    by_cases keyword : component ∈ keywords.map String.toList
    · rw [classify, if_pos keyword] at same
      cases attr with
      | word => cases same
      | or _ free => exact ⟨fun _ => free, (List.cons.inj same).2⟩
      | string => cases same
    · rw [classify, if_neg keyword] at same
      refine ⟨fun member => absurd member keyword, ?_⟩
      cases attr with
      | word => exact (List.cons.inj same).2
      | or => cases same
      | string => cases same

theorem attrPath_of_components (path : AttrPath tokens components)
    (same : .symbol '.' :: (tokens ++ left) = accessorTokens components ++ right) :
    (∀ component ∈ components, Nameable component) ∧ left = right := by
  induction components generalizing tokens with
  | nil => exact absurd rfl path.ne_nil
  | cons component components ih =>
    rw [accessorTokens, List.flatMap_cons, List.cons_append, List.cons_append, List.append_assoc] at same
    have tail := (List.cons.inj same).2
    cases path with
    | one attr =>
      obtain ⟨free, rfl⟩ := attr_of_component attr tail
      exact ⟨by simpa using free, rfl⟩
    | dot attr rest =>
      rw [List.append_assoc] at tail
      obtain ⟨free, dot⟩ := attr_of_component attr tail
      obtain ⟨others, rfl⟩ := ih rest dot
      refine ⟨?_, rfl⟩
      simp only [List.mem_cons, forall_eq_or_imp]
      exact ⟨free, others⟩

theorem binds_of_source (plain : ∀ attr ∈ attrs, Plain false attr.toList) (binds : Binds tokens (testBindings names))
    (same : tokens ++ [.symbol '}'] = (attrs.flatMap fun attr => bindingTokens attr.toList) ++ [.symbol '}']) :
    names = attrs ∧ ∀ attr ∈ attrs, ∀ component ∈ attr.toList.splitOn '.', Nameable component := by
  induction attrs generalizing names tokens with
  | nil =>
    cases names with
    | nil => exact ⟨rfl, by simp⟩
    | cons name names =>
      change Binds tokens (.cons name.toList _ _) at binds
      cases binds with
      | cons attr => cases attr <;> cases same
  | cons attr attrs ih =>
    rw [List.flatMap_cons, bindingTokens] at same
    simp only [List.append_assoc, List.cons_append, List.nil_append] at same
    cases names with
    | nil =>
      change Binds tokens .nil at binds
      cases binds
      cases same
    | cons name names =>
      change Binds tokens (.cons name.toList (testsOf (attrPath false name.toList)) (testBindings names)) at binds
      cases binds with
      | cons spelled bound left =>
        simp only [List.append_assoc, List.cons_append] at same
        obtain ⟨here, assigned⟩ := attr_of_string spelled same
        obtain rfl := String.toList_inj.mp here
        have unquoted := (plain name List.mem_cons_self).quote
        rw [testsOf, attrPath_unquoted unquoted] at bound
        cases bound with
        | apply _ called given =>
          cases called
          cases given with
          | select _ pkgs path =>
            cases pkgs
            simp only [List.cons_append, List.nil_append, List.cons.injEq, true_and] at assigned
            obtain ⟨free, ends⟩ := attrPath_of_components path assigned
            obtain ⟨rfl, others⟩ := ih (fun other member => plain other (List.mem_cons_of_mem name member)) left
              (List.cons.inj ends).2
            refine ⟨rfl, ?_⟩
            simp only [List.mem_cons, forall_eq_or_imp]
            exact ⟨free, others⟩

theorem derives_source_iff (plain : ∀ attr ∈ attrs, Plain false attr.toList) :
    Derives functionLevel (sourceTokens file attrs) (passthruTests file names) ↔
      names = attrs ∧ ∀ attr ∈ attrs, ∀ component ∈ attr.toList.splitOn '.', Nameable component := by
  constructor
  · generalize sourced : sourceTokens file attrs = tokens
    intro derives
    rw [sourceTokens_eq] at sourced
    cases derives with
    | letIn _ bound inside =>
      obtain ⟨rfl, body⟩ := Binds.unique _ (binds_tokens (preamble file) rfl) bound (List.cons.inj sourced).2
      cases inside with
      | attrs _ binds => exact binds_of_source plain binds (List.cons.inj (List.cons.inj body).2).2.symm
  · rintro ⟨rfl, free⟩
    exact derives_source plain free

theorem path_of_derives (derives : Derives functionLevel (importTokens ++ tokens) (passthruTests literal names)) :
    ∃ others, tokens = .path literal :: others := by
  generalize whole : importTokens ++ tokens = all at derives
  cases derives with
  | letIn _ bound =>
    have tail := (List.cons.inj whole).2
    change Binds _ (.cons "pkgs".toList (.apply (.apply (.var "import".toList) (.path literal)) (.attrs .nil)) _) at bound
    cases bound with
    | cons attr value =>
      rw [List.append_assoc] at tail
      obtain ⟨rfl, assigned⟩ := (Attr.word "pkgs".toList).unique attr tail
      cases value with
      | apply _ called =>
        cases called with
        | apply _ imports file =>
          cases imports
          cases file
          exact ⟨_, (List.cons.inj (List.cons.inj assigned).2).2⟩

/-! Which files and attributes the text can be about: whatever it says comes from its tokens,
and every token from a place in the text. -/

theorem mem_splitOn_iff {separator : Char} (other : character ≠ separator) :
    (∃ piece ∈ text.splitOn separator, character ∈ piece) ↔ character ∈ text := by
  induction text with
  | nil => simp
  | cons first rest ih =>
    rw [List.mem_cons, ← ih, splitOn_cons]
    split
    next same =>
      have differs : character ≠ first := same ▸ other
      simp [differs]
    next =>
      cases pieces : rest.splitOn separator with
      | nil => exact absurd pieces (List.splitOn_ne_nil _ _)
      | cons piece pieces => simp [or_assoc]

theorem pathOrSlash_of_locates (locates : Locates literal file)
    (characters : ∀ character ∈ literal, pathOrSlash character = true) :
    ∀ character ∈ file, pathOrSlash character = true := by
  intro character member
  by_cases slash : character = '/'
  · subst slash
    rfl
  by_cases dot : character = '.'
  · subst dot
    rfl
  obtain ⟨piece, inside, within⟩ := (mem_splitOn_iff slash).mpr member
  have component : piece ∈ Lib.UnixPath.components file := by
    refine List.mem_filter.mpr ⟨inside, decide_eq_true ⟨List.ne_nil_of_mem within, ?_⟩⟩
    rintro rfl
    exact dot (List.mem_singleton.mp within)
  have step : piece ∈ fileSteps file := by
    rw [← List.takeWhile_append_dropWhile (p := (· = ['.', '.'])) (l := Lib.UnixPath.components file)] at component
    obtain up | step := List.mem_append.mp component
    · have parent := List.mem_takeWhile_imp up
      rw [of_decide_eq_true parent] at within
      simp [dot] at within
    · exact step
  rw [← locates.same] at step
  obtain found | named := Lib.UnixPath.mem_walk step
  · cases found
  · exact characters character ((mem_splitOn_iff slash).mp ⟨piece, (List.mem_filter.mp named).1, within⟩)

theorem plainFile_of_lexes (locates : Locates literal file)
    (characters : ∀ character ∈ file, pathOrSlash character = true)
    (lexes : Lexes [] (file ++ (openText ++ rest)) (.path literal :: tokens)) : literal = file ∧ PlainFile file := by
  obtain ⟨name, rfl⟩ := isAbsolute_iff.mp locates.fromTop
  have code : ([] : List Mode).head? ≠ some .string := by decide
  cases starts : startsPath ('/' :: name) with
  | false =>
    have run : pathRun ('/' :: (name ++ (openText ++ rest))) = '/' :: name := by
      rw [pathRun, ← List.cons_append, List.takeWhile_append_of_pos characters, openText_blank, List.append_nil]
    have alone : ¬ ('/' = '/' ∧ (name ++ (openText ++ rest)).head? = some '*') := by
      rintro ⟨-, star⟩
      cases name with
      | nil =>
        rw [openText_cons] at star
        cases star
      | cons second name =>
        obtain rfl := Option.some.inj star
        exact absurd (characters '*' (by simp)) (by decide)
    have scan : next [] ('/' :: (name ++ (openText ++ rest))) = some ([.symbol '/'], [], name ++ (openText ++ rest)) := by
      rw [next_of_code code, nextCode, run, starts, if_neg alone]
      rfl
    obtain ⟨others, same, -⟩ := (Scans.of_next scan _).mp lexes
    cases same
  | true =>
    have scan := @nextCode_run [] _ _ _ characters (openText_blank rest) starts
    rw [← next_of_code code] at scan
    by_cases named : [] ∈ pathNames ('/' :: name)
    · rw [if_pos named] at scan
      exact absurd scan lexes.next_ne_none
    · rw [if_neg named] at scan
      obtain ⟨others, same, -⟩ := (Scans.of_next scan _).mp lexes
      cases same
      exact ⟨rfl, rfl, characters, named, (locate_iff _).mp locates.same⟩

/-- There is a run of backslashes of this length. -/
def HasRun (count : Nat) (text : List Char) : Prop := List.replicate count '\\' <:+: text

theorem hasRun_one_iff : HasRun 1 text ↔ '\\' ∈ text := List.singleton_infix_iff _ _

theorem HasRun.backslash (run : HasRun (count + 1) text) : '\\' ∈ text :=
  List.IsInfix.mem (by simp) run

theorem eq_backslash_of_run (split : List.replicate count '\\' = first ++ second)
    (member : character ∈ first ∨ character ∈ second) : character = '\\' := by
  apply List.eq_of_mem_replicate (n := count)
  rw [split]
  exact List.mem_append.mpr member

theorem hasRun_append (ends : rest.head? ≠ some '\\') (run : HasRun (count + 1) (front ++ rest)) :
    HasRun (count + 1) front ∨ HasRun (count + 1) rest := by
  obtain before | after | ⟨first, second, -, nonempty, split, -, begins⟩ := List.infix_append_iff_ne_nil.mp run
  · exact .inl before
  · exact .inr after
  · obtain ⟨character, second, rfl⟩ := List.exists_cons_of_ne_nil nonempty
    obtain rfl := eq_backslash_of_run split (.inr List.mem_cons_self)
    obtain ⟨more, rfl⟩ := begins
    exact absurd rfl ends

theorem hasRun_of_without (without : '\\' ∉ front) (run : HasRun (count + 1) (front ++ rest)) :
    HasRun (count + 1) rest := by
  obtain before | after | ⟨first, second, nonempty, -, split, ends, -⟩ := List.infix_append_iff_ne_nil.mp run
  · exact absurd (HasRun.backslash before) without
  · exact after
  · obtain ⟨character, first, rfl⟩ := List.exists_cons_of_ne_nil nonempty
    obtain rfl := eq_backslash_of_run split (.inl List.mem_cons_self)
    exact absurd (ends.mem List.mem_cons_self) without

theorem hasRun_component (ends : rest.head? ≠ some '\\') (run : HasRun (count + 1) (quoteComponent component ++ rest)) :
    HasRun (count + 1) component ∨ HasRun (count + 1) rest := by
  rw [quoteComponent] at run
  split at run
  next =>
    rw [List.cons_append, List.append_assoc, List.singleton_append] at run
    obtain inside | after := hasRun_append (by simp) (@hasRun_of_without _ ['"'] _ (by decide) run)
    · exact .inl inside
    · exact .inr (@hasRun_of_without _ ['"'] _ (by decide) after)
  next => exact hasRun_append ends run

theorem hasRun_components (ends : rest.head? ≠ some '\\')
    (run : HasRun (count + 1) ((components.flatMap fun component => '.' :: quoteComponent component) ++ rest)) :
    (∃ component ∈ components, HasRun (count + 1) component) ∨ HasRun (count + 1) rest := by
  induction components with
  | nil => exact .inr run
  | cons component components ih =>
    have later : ((components.flatMap fun component => '.' :: quoteComponent component) ++ rest).head? ≠ some '\\' := by
      cases components with
      | nil => exact ends
      | cons => simp
    rw [List.flatMap_cons, List.append_assoc] at run
    obtain here | more := hasRun_component later (@hasRun_of_without _ ['.'] _ (by decide) run)
    · exact .inl ⟨component, List.mem_cons_self, here⟩
    · obtain ⟨other, member, inside⟩ | after := ih more
      · exact .inl ⟨other, List.mem_cons_of_mem component member, inside⟩
      · exact .inr after

theorem hasRun_binding {attr : String} (run : HasRun (count + 1) (bindingText attr ++ rest)) :
    HasRun (count + 1) attr.toList ∨ HasRun (count + 1) rest := by
  rw [bindingText_eq] at run
  have named := @hasRun_of_without _ [' ', ' ', '"'] _ (by decide) run
  obtain name | assigned := hasRun_append (by simp) named
  · exact .inl name
  have called := @hasRun_of_without _ ('"' :: " = safeTests ".toList) _ (by decide) assigned
  have selected := @hasRun_of_without _ "pkgs".toList _ (by decide) called
  obtain ⟨component, member, inside⟩ | after := hasRun_components (by simp) selected
  · exact .inl (inside.trans (Lib.infix_of_mem_splitOn member))
  · exact .inr (@hasRun_of_without _ [';', '\n'] _ (by decide) after)

theorem hasRun_source (file : '\\' ∉ originalFile.toList)
    (run : HasRun (count + 1) (buildNixSource originalFile changedAttrs).toList) :
    ∃ attr ∈ changedAttrs, HasRun (count + 1) attr.toList := by
  have bindings : ∀ rest, HasRun (count + 1) (changedAttrs.flatMap bindingText ++ rest) →
      (∃ attr ∈ changedAttrs, HasRun (count + 1) attr.toList) ∨ HasRun (count + 1) rest := by
    clear run
    induction changedAttrs with
    | nil => exact fun rest run => .inr run
    | cons attr attrs ih =>
      intro rest run
      rw [List.flatMap_cons, List.append_assoc] at run
      obtain here | later := hasRun_binding run
      · exact .inl ⟨attr, List.mem_cons_self, here⟩
      · obtain ⟨other, member, inside⟩ | after := ih rest later
        · exact .inl ⟨other, List.mem_cons_of_mem attr member, inside⟩
        · exact .inr after
  rw [toList_buildNixSource] at run
  have imported := hasRun_of_without (by decide : '\\' ∉ importText) run
  have opened := hasRun_of_without (by decide : '\\' ∉ openText) (hasRun_of_without file imported)
  obtain found | foot := bindings _ opened
  · exact found
  · exact absurd foot.backslash (by decide)

theorem attr_of_derives (derives : Derives functionLevel tokens (passthruTests literal names)) :
    ∀ name ∈ names, ∃ spelling, Attr spelling name.toList ∧ ∀ token ∈ spelling, token ∈ tokens := by
  have bindings : ∀ tokens, Binds tokens (testBindings names) →
      ∀ name ∈ names, ∃ spelling, Attr spelling name.toList ∧ ∀ token ∈ spelling, token ∈ tokens := by
    clear derives
    induction names with
    | nil => simp
    | cons name names ih =>
      intro tokens binds
      change Binds tokens (.cons name.toList _ _) at binds
      cases binds with
      | cons attr bound left =>
        simp only [List.mem_cons, forall_eq_or_imp]
        refine ⟨⟨_, attr, fun token member => List.mem_append_left _ member⟩, ?_⟩
        intro other member
        obtain ⟨spelling, spelled, inside⟩ := ih _ left other member
        refine ⟨spelling, spelled, fun token listed => ?_⟩
        simp [inside token listed]
  cases derives with
  | letIn _ bound inside =>
    cases inside with
    | attrs _ binds =>
      intro name member
      obtain ⟨spelling, spelled, inside⟩ := bindings _ binds name member
      refine ⟨spelling, spelled, fun token listed => ?_⟩
      simp [inside token listed]

theorem origin_of_attr {spelling : List Token} (attr : Attr spelling name)
    (origin : ∀ token ∈ spelling, token.Origin text) :
    (∀ character ∈ name, wordRest character = true) ∨
      ∃ start, start <:+ text ∧ name = (readString false start).1 := by
  cases attr with
  | word => exact .inl (origin _ List.mem_cons_self)
  | or _ free =>
    subst free
    exact .inl (List.all_eq_true.mp (by decide))
  | string =>
    by_cases empty : name = []
    · subst empty
      exact .inl (by simp)
    · exact .inr (origin (.part name) (by simp [stringTokens, empty]))

theorem plain_of_word (word : ∀ character ∈ name, wordRest character = true) : Plain false name := by
  induction name with
  | nil => exact .nil _
  | cons character rest ih =>
    rw [List.forall_mem_cons] at word
    have others : ∀ special ∈ ['"', '\\', '\r', nul, '$'], character ≠ special := by
      intro special member same
      have none : ['"', '\\', '\r', nul, '$'].all (!wordRest ·) = true := by decide
      have outside := List.all_eq_true.mp none special member
      rw [← same, word.1] at outside
      cases outside
    refine plain_cons_iff.mpr ⟨⟨others _ (by simp), others _ (by simp), others _ (by simp), others _ (by simp)⟩, ?_⟩
    rw [if_neg (others _ (by simp))]
    exact ih word.2

/-- If every attribute is spelled somewhere in the text, then none has a backslash: the
longest run of them would need a longer one. -/
theorem no_backslash (file : '\\' ∉ originalFile.toList)
    (spelled : ∀ attr ∈ changedAttrs, (∀ character ∈ attr.toList, wordRest character = true) ∨
      ∃ start, start <:+ (buildNixSource originalFile changedAttrs).toList ∧ attr.toList = (readString false start).1) :
    '\\' ∉ (buildNixSource originalFile changedAttrs).toList := by
  have grows : ∀ count, (∃ attr ∈ changedAttrs, HasRun 1 attr.toList) → ∃ attr ∈ changedAttrs, HasRun (count + 1) attr.toList := by
    intro count present
    induction count with
    | zero => exact present
    | succ count ih =>
      obtain ⟨attr, member, run⟩ := ih
      obtain word | ⟨start, inside, read⟩ := spelled attr member
      · exact absurd (word '\\' run.backslash) (by decide)
      · rw [read] at run
        have longer : HasRun (2 * (count + 1)) (buildNixSource originalFile changedAttrs).toList :=
          (infix_readString run).trans inside.isInfix
        obtain ⟨other, listed, found⟩ := @hasRun_source _ (2 * count + 1) _ file longer
        refine ⟨other, listed, List.IsInfix.trans (List.prefix_append _ (List.replicate count '\\')).isInfix ?_⟩
        rwa [List.replicate_append_replicate, show count + 1 + 1 + count = 2 * count + 1 + 1 by omega]
  intro member
  have first := @hasRun_source _ 0 _ file (hasRun_one_iff.mpr member)
  obtain ⟨attr, listed, run⟩ := grows (changedAttrs.map String.toList).flatten.length first
  have length := run.length_le
  have short := (List.infix_of_mem_flatten (List.mem_map_of_mem (f := String.toList) listed)).length_le
  rw [List.length_replicate] at length
  omega

/-- What can be asked for by this text: the attributes stand in strings as they are, and no
component of one is a keyword. -/
structure PlainRequest (originalFile : String) (changedAttrs : List String) : Prop where
  file : PlainFile originalFile.toList
  distinct : changedAttrs.Nodup
  plain : ∀ attr ∈ changedAttrs, Plain false attr.toList
  nameable : ∀ attr ∈ changedAttrs, ∀ component ∈ attr.toList.splitOn '.', Nameable component

theorem PlainRequest.means (request : PlainRequest originalFile changedAttrs) :
    MeansWhatWasAsked originalFile changedAttrs (buildNixSource originalFile changedAttrs) := by
  obtain ⟨file, distinct, plain, nameable⟩ := request
  refine ⟨_, originalFile.toList, changedAttrs, (lexes_source_iff file plain).mpr rfl,
    (derives_source_iff plain).mpr ⟨rfl, nameable⟩, ?_, distinct, fun _ => Iff.rfl⟩
  exact ⟨file.absolute, file.absolute, (locate_iff _).mpr file.forward⟩

theorem file_of_means (lexes : Lexes [] (buildNixSource originalFile changedAttrs).toList tokens)
    (derives : Derives functionLevel tokens (passthruTests literal names))
    (locates : Locates literal originalFile.toList) : literal = originalFile.toList ∧ PlainFile originalFile.toList := by
  rw [toList_buildNixSource] at lexes
  obtain ⟨others, rfl, left⟩ := (scans_import _ _).mp lexes
  obtain ⟨rest, rfl⟩ := path_of_derives derives
  have characters := left.origin (.path literal) List.mem_cons_self
  exact plainFile_of_lexes locates (pathOrSlash_of_locates locates characters) left

theorem MeansWhatWasAsked.request
    (means : MeansWhatWasAsked originalFile changedAttrs (buildNixSource originalFile changedAttrs)) :
    PlainRequest originalFile changedAttrs := by
  obtain ⟨tokens, literal, names, lexes, derives, locates, distinct, same⟩ := means
  obtain ⟨rfl, file⟩ := file_of_means lexes derives locates
  have spelled : ∀ attr ∈ changedAttrs, (∀ character ∈ attr.toList, wordRest character = true) ∨
      ∃ start, start <:+ (buildNixSource originalFile changedAttrs).toList ∧ attr.toList = (readString false start).1 := by
    intro attr member
    obtain ⟨spelling, name, inside⟩ := attr_of_derives derives attr ((same attr).mpr member)
    exact origin_of_attr name fun token listed => lexes.origin token (inside token listed)
  have unescaped : '\\' ∉ originalFile.toList := fun member => absurd (file.characters _ member) (by decide)
  have without := no_backslash unescaped spelled
  have plain : ∀ attr ∈ changedAttrs, Plain false attr.toList := by
    intro attr member
    obtain word | ⟨start, inside, read⟩ := spelled attr member
    · exact plain_of_word word
    · rw [read]
      exact plain_readString fun inner => without (inside.mem inner)
  rw [(lexes_source_iff file plain).mp lexes] at derives
  obtain ⟨rfl, nameable⟩ := (derives_source_iff plain).mp derives
  exact ⟨file, distinct, plain, nameable⟩

/-- The text means what was asked exactly if the file and the attributes are plain. -/
theorem meansWhatWasAsked_iff (originalFile : String) (changedAttrs : List String) :
    MeansWhatWasAsked originalFile changedAttrs (buildNixSource originalFile changedAttrs) ↔
      PlainRequest originalFile changedAttrs :=
  ⟨MeansWhatWasAsked.request, PlainRequest.means⟩

/-- A component with a dot in it comes between quotes, and these end the string that the
attribute is written in. -/
theorem quotedComponent_not_means :
    ¬ MeansWhatWasAsked "/repo/release.nix" ["\"python3.11\".requests"]
      (buildNixSource "/repo/release.nix" ["\"python3.11\".requests"]) := by
  intro means
  have quote := (means.request.plain _ List.mem_cons_self).quote
  exact quote (by decide)

end EkaCI
