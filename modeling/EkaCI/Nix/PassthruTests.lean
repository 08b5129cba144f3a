import EkaCI.Lib.UnixPath
import EkaCI.Nix.Grammar

/-! The Nix text that evaluates `passthru.tests` for attributes of a file. File and
attributes are written into the text as they are, so it means what was asked only if they
are plain. -/

namespace EkaCI

open NixSyntax

def needsQuoting (component : List Char) : Bool :=
  match component with
  | [] => true
  | first :: _ =>
    !(first.isAlpha || first = '_') ||
      !component.all fun byte => byte.isAlphanum || byte = '_' || byte = '\'' || byte = '-'

def quoteComponent (component : List Char) : List Char :=
  if needsQuoting component then '"' :: (component ++ ['"']) else component

def attrToNixAccessor (attr : String) : String :=
  String.ofList (['.'].intercalate ((attr.toList.splitOn '.').map quoteComponent))

def buildNixSource (originalFile : String) (changedAttrs : List String) : String :=
  let header :=
    "let\n" ++
    "  pkgs = import " ++ originalFile ++ " \x7b\x7d;\n" ++
    "  safeTests = path:\n" ++
    "    let\n" ++
    "      pkg = builtins.tryEval (builtins.deepSeq path path);\n" ++
    "    in\n" ++
    "      if !pkg.success then \x7b\x7d\n" ++
    "      else\n" ++
    "        let tests = builtins.tryEval (pkg.value.passthru.tests or \x7b\x7d);\n" ++
    "        in if tests.success then tests.value else \x7b\x7d;\n" ++
    "in \x7b\n"
  let nix := changedAttrs.foldl (fun nix attr =>
    nix ++ "  \"" ++ attr ++ "\" = safeTests pkgs." ++ attrToNixAccessor attr ++ ";\n") header
  nix ++ "\x7d\n"

/-- The attribute path that the name of a job stands for. A component with dots in it is
between quotes. -/
def attrPath : Bool → List Char → List (List Char)
  | _, [] => [[]]
  | quoted, character :: rest =>
    if character = '"' then attrPath (!quoted) rest
    else if character = '.' ∧ quoted = false then [] :: attrPath false rest
    else (attrPath quoted rest).modifyHead (character :: ·)

def safeTests : Expr :=
  let tryEval := Expr.select (.var "builtins".toList) ["tryEval".toList]
  let deepSeq := Expr.select (.var "builtins".toList) ["deepSeq".toList]
  let path := Expr.var "path".toList
  let tests := Expr.var "tests".toList
  .function "path".toList <|
    .letIn (.cons "pkg".toList (.apply tryEval (.parens (.apply (.apply deepSeq path) path))) .nil) <|
      .ifThenElse (.not (.select (.var "pkg".toList) ["success".toList])) (.attrs .nil) <|
        .letIn
          (.cons "tests".toList
            (.apply tryEval (.parens (.selectOr (.var "pkg".toList)
              ["value".toList, "passthru".toList, "tests".toList] (.attrs .nil)))) .nil)
          (.ifThenElse (.select tests ["success".toList]) (.select tests ["value".toList]) (.attrs .nil))

/-- The tests of the package at an attribute path. -/
def testsOf (names : List (List Char)) : Expr :=
  .apply (.var "safeTests".toList) (.select (.var "pkgs".toList) names)

def testBindings (attrs : List String) : Bindings :=
  attrs.foldr (fun attr rest => .cons attr.toList (testsOf (attrPath false attr.toList)) rest) .nil

/-- The variables that the attributes use. -/
def preamble (file : List Char) : Bindings :=
  .cons "pkgs".toList (.apply (.apply (.var "import".toList) (.path file)) (.attrs .nil))
    (.cons "safeTests".toList safeTests .nil)

/-- What is asked for: one attribute for each of the given ones. -/
def passthruTests (file : List Char) (attrs : List String) : Expr := .letIn (preamble file) (.attrs (testBindings attrs))

/-- The steps from the top to a file. Above the top there is only the top. -/
def fileSteps (file : List Char) : List (List Char) := (Lib.UnixPath.components file).dropWhile (· = ['.', '.'])

/-- A path of the text leads to the file in every file system. It is normalized as a text,
and `..` in the path of a file may lead out of a symbolic link. -/
structure Locates (literal file : List Char) : Prop where
  absolute : Lib.UnixPath.isAbsolute literal = true
  fromTop : Lib.UnixPath.isAbsolute file = true
  same : Lib.UnixPath.locate ⟨literal⟩ = fileSteps file

/-- The text is a Nix expression that imports the file and has exactly the given attributes,
each with the tests of the package at its path. -/
def MeansWhatWasAsked (originalFile : String) (changedAttrs : List String) (source : String) : Prop :=
  ∃ tokens literal names, Lexes [] source.toList tokens ∧ Derives functionLevel tokens (passthruTests literal names) ∧
    Locates literal originalFile.toList ∧ names.Nodup ∧ ∀ attr, attr ∈ names ↔ attr ∈ changedAttrs

def importText : List Char := ["let\n", "  pkgs = import "].flatMap String.toList

def importTokens : List Token :=
  [.keyword "let".toList, .word "pkgs".toList, .symbol '=', .word "import".toList]

/-- What follows the file, up to the first attribute. -/
def openText : List Char :=
  [" \x7b\x7d;\n",
    "  safeTests = path:\n",
    "    let\n",
    "      pkg = builtins.tryEval (builtins.deepSeq path path);\n",
    "    in\n",
    "      if !pkg.success then \x7b\x7d\n",
    "      else\n",
    "        let tests = builtins.tryEval (pkg.value.passthru.tests or \x7b\x7d);\n",
    "        in if tests.success then tests.value else \x7b\x7d;\n",
    "in \x7b\n"].flatMap String.toList

def openTokens : List Token :=
  .symbol '{' :: .symbol '}' :: .symbol ';' :: .word "safeTests".toList :: .symbol '=' ::
    (safeTests.tokens ++ [.symbol ';', .keyword "in".toList, .symbol '{'])

def accessorText (attr : List Char) : List Char := (attr.splitOn '.').flatMap fun component => '.' :: quoteComponent component

def bindingText (attr : String) : List Char :=
  "  \"".toList ++ (attr.toList ++ ("\" = safeTests pkgs".toList ++ (accessorText attr.toList ++ ";\n".toList)))

theorem run_importText : run 9 [] importText = some (importTokens, [], [' ']) := by decide

theorem run_openText : run 142 [] openText = some (openTokens, [.code], ['\n']) := by decide +kernel

theorem flatMap_dot {parts : List (List Char)} (nonempty : parts ≠ []) :
    parts.flatMap ('.' :: ·) = '.' :: ['.'].intercalate parts := by
  induction parts with
  | nil => exact absurd rfl nonempty
  | cons part parts ih =>
    cases parts with
    | nil => simp
    | cons second parts => simp [ih (List.cons_ne_nil second parts)]

theorem toList_accessor (attr : String) :
    '.' :: (attrToNixAccessor attr).toList = accessorText attr.toList := by
  have nonempty : (attr.toList.splitOn '.').map quoteComponent ≠ [] := by
    rw [ne_eq, List.map_eq_nil_iff]
    exact List.splitOn_ne_nil _ _
  rw [attrToNixAccessor, String.toList_ofList, ← flatMap_dot nonempty, accessorText, List.flatMap_map]

theorem toList_bindings (changedAttrs : List String) (nix : String) :
    (changedAttrs.foldl (fun nix attr =>
      nix ++ "  \"" ++ attr ++ "\" = safeTests pkgs." ++ attrToNixAccessor attr ++ ";\n") nix).toList =
        nix.toList ++ changedAttrs.flatMap bindingText := by
  induction changedAttrs generalizing nix with
  | nil => simp
  | cons attr rest ih =>
    have dot : "\" = safeTests pkgs.".toList = "\" = safeTests pkgs".toList ++ ['.'] := by decide
    rw [List.foldl_cons, ih, List.flatMap_cons, bindingText, ← toList_accessor]
    simp only [String.toList_append, dot, List.append_assoc, List.cons_append, List.nil_append]

theorem toList_buildNixSource (originalFile : String) (changedAttrs : List String) :
    (buildNixSource originalFile changedAttrs).toList =
      importText ++ (originalFile.toList ++ (openText ++ (changedAttrs.flatMap bindingText ++ "\x7d\n".toList))) := by
  delta importText openText
  simp only [buildNixSource, String.toList_append, toList_bindings, List.flatMap_cons, List.flatMap_nil, List.append_assoc,
    List.append_nil]

theorem needsQuoting_eq_false_iff {component : List Char} :
    needsQuoting component = false ↔
      ∃ first name, component = first :: name ∧ wordStart first = true ∧ ∀ byte ∈ name, wordRest byte = true := by
  cases component with
  | nil => simp [needsQuoting]
  | cons first name =>
    simp only [needsQuoting, Bool.or_eq_false_iff, Bool.not_eq_false', List.all_cons, Bool.and_eq_true,
      List.all_eq_true, List.cons.injEq]
    constructor
    · rintro ⟨start, -, word⟩
      exact ⟨first, name, ⟨rfl, rfl⟩, start, word⟩
    · rintro ⟨_, _, ⟨rfl, rfl⟩, start, word⟩
      exact ⟨start, wordRest_of_wordStart start, word⟩

def componentTokens (component : List Char) : List Token :=
  if needsQuoting component then stringTokens component else [classify component]

def accessorTokens (components : List (List Char)) : List Token :=
  components.flatMap fun component => .symbol '.' :: componentTokens component

theorem not_slash_of_wordRest {text : List Char} (word : ∀ character ∈ text, wordRest character = true) : '/' ∉ text := by
  intro member
  exact absurd (word '/' member) (by decide)

theorem splitOn_cons (separator character : Char) (rest : List Char) :
    (character :: rest).splitOn separator =
      if character = separator then [] :: rest.splitOn separator
      else (rest.splitOn separator).modifyHead (character :: ·) := by
  simp only [List.splitOn_eq_splitOnP, List.splitOnP_cons_eq_if_modifyHead, beq_iff_eq]

/-- A plain name has plain components. A pair of dollar signs may begin before the first of
them. -/
theorem plain_splitOn {paired : Bool} {text : List Char} (plain : Plain paired text) :
    ∃ first others, text.splitOn '.' = first :: others ∧ first <+: text ∧ Plain paired first ∧
      ∀ component ∈ others, Plain false component := by
  induction text generalizing paired with
  | nil => exact ⟨[], [], rfl, List.prefix_rfl, .nil _, by simp⟩
  | cons character rest ih =>
    obtain ⟨characters, left⟩ := plain_cons_iff.mp plain
    rw [splitOn_cons]
    split
    next dot =>
      subst dot
      rw [if_neg (by decide)] at left
      obtain ⟨first, others, split, -, here, later⟩ := ih left
      refine ⟨[], _, rfl, List.nil_prefix, .nil _, ?_⟩
      rw [split]
      simp only [List.mem_cons, forall_eq_or_imp]
      exact ⟨here, later⟩
    next other =>
      by_cases dollar : character = '$'
      · rw [if_pos dollar] at left
        obtain ⟨first, others, split, inside, here, later⟩ := ih left.2
        refine ⟨character :: first, others, by rw [split]; rfl, List.cons_prefix_cons.mpr ⟨rfl, inside⟩, ?_, later⟩
        refine plain_cons_iff.mpr ⟨characters, ?_⟩
        rw [if_pos dollar]
        refine ⟨fun both => left.1 ⟨both.1, ?_⟩, here⟩
        obtain ⟨tail, rfl⟩ := List.head?_eq_some_iff.mp both.2
        obtain ⟨more, rfl⟩ := inside
        rfl
      · rw [if_neg dollar] at left
        obtain ⟨first, others, split, inside, here, later⟩ := ih left
        refine ⟨character :: first, others, by rw [split]; rfl, List.cons_prefix_cons.mpr ⟨rfl, inside⟩, ?_, later⟩
        refine plain_cons_iff.mpr ⟨characters, ?_⟩
        rwa [if_neg dollar]

theorem plain_components {text : List Char} (plain : Plain false text) :
    ∀ component ∈ text.splitOn '.', Plain false component := by
  obtain ⟨first, others, split, -, here, later⟩ := plain_splitOn plain
  rw [split]
  simp only [List.mem_cons, forall_eq_or_imp]
  exact ⟨here, later⟩

section Lexing

variable {modes : List Mode} {rest : List Char} (code : modes.head? ≠ some .string)

theorem slashless_component (component : List Char) (slashless : Slashless rest) :
    Slashless (quoteComponent component ++ rest) := by
  rw [quoteComponent]
  split
  next => exact slashless_of_not_path _ (by decide)
  next bare =>
    obtain ⟨first, name, rfl, start, word⟩ := needsQuoting_eq_false_iff.mp (Bool.eq_false_iff.mpr bare)
    refine slashless.append (not_slash_of_wordRest ?_)
    simp only [List.mem_cons, forall_eq_or_imp]
    exact ⟨wordRest_of_wordStart start, word⟩

theorem slashless_components (components : List (List Char)) (slashless : Slashless rest) :
    Slashless ((components.flatMap fun component => '.' :: quoteComponent component) ++ rest) := by
  induction components with
  | nil => exact slashless
  | cons component components ih =>
    rw [List.flatMap_cons, List.append_assoc]
    exact @Slashless.append _ ['.'] (by decide) (slashless_component component ih)

include code

theorem scans_component {component : List Char} (plain : Plain false component) (slashless : Slashless rest)
    (ends : rest.takeWhile wordRest = []) :
    Scans modes modes (quoteComponent component ++ rest) rest (componentTokens component) := by
  rw [quoteComponent, componentTokens]
  split
  next =>
    rw [List.cons_append, List.append_assoc, List.singleton_append]
    exact scans_string code plain
  next bare =>
    have inside := slashless_component component slashless
    rw [quoteComponent, if_neg bare] at inside
    obtain ⟨first, name, rfl, start, word⟩ := needsQuoting_eq_false_iff.mp (Bool.eq_false_iff.mpr bare)
    exact scans_word code start word ends inside

theorem scans_components {components : List (List Char)} (plain : ∀ component ∈ components, Plain false component)
    (slashless : Slashless rest) (ends : rest.takeWhile wordRest = []) :
    Scans modes modes ((components.flatMap fun component => '.' :: quoteComponent component) ++ rest) rest
      (accessorTokens components) := by
  induction components with
  | nil => exact .refl _ _
  | cons component components ih =>
    have later := slashless_components components slashless
    have stops : ((components.flatMap fun component => '.' :: quoteComponent component) ++ rest).takeWhile wordRest = [] := by
      cases components with
      | nil => exact ends
      | cons => rfl
    have dot := scans_dot code (slashless_component component later)
    have here := scans_component code (plain component List.mem_cons_self) later stops
    have others := ih fun other member => plain other (List.mem_cons_of_mem component member)
    rw [List.flatMap_cons, List.append_assoc]
    exact dot.trans (here.trans others)

/-- What one attribute is written as. -/
def bindingTokens (attr : List Char) : List Token :=
  stringTokens attr ++ (.symbol '=' :: .word "safeTests".toList :: .word "pkgs".toList ::
    (accessorTokens (attr.splitOn '.') ++ [.symbol ';']))

end Lexing

theorem run_assigned : run 4 [.code] " = safeTests ".toList =
    some ([.symbol '=', .word "safeTests".toList], [.code], [' ']) := by decide

theorem bindingText_eq (attr : String) (rest : List Char) : bindingText attr ++ rest =
    ' ' :: ' ' :: '"' :: (attr.toList ++ '"' :: (" = safeTests ".toList ++
      'p' :: ("kgs".toList ++ (accessorText attr.toList ++ ';' :: '\n' :: rest)))) := by
  have quote : "\" = safeTests pkgs".toList = '"' :: (" = safeTests ".toList ++ 'p' :: "kgs".toList) := by decide
  rw [bindingText, quote, show "  \"".toList = [' ', ' ', '"'] from rfl, show ";\n".toList = [';', '\n'] from rfl]
  simp

theorem scans_binding {attr : String} (plain : Plain false attr.toList) (rest : List Char) :
    Scans [.code] [.code] (bindingText attr ++ rest) rest (bindingTokens attr.toList) := by
  have code : [Mode.code].head? ≠ some .string := by decide
  have components := plain_components plain
  have ends : Slashless (';' :: '\n' :: rest) := slashless_of_not_path _ (by decide)
  have slashless := @Slashless.append _ "pkgs".toList (by decide) (slashless_components (attr.toList.splitOn '.') ends)
  have stops : (accessorText attr.toList ++ ';' :: '\n' :: rest).takeWhile wordRest = [] := by
    rw [accessorText]
    cases attr.toList.splitOn '.' <;> rfl
  have pkgs := @scans_word _ _ code 'p' "kgs".toList (by decide) (List.all_eq_true.mp (by decide)) stops slashless
  have accessor := scans_components code components ends rfl
  have line := (@scans_semicolon _ ('\n' :: rest) code).trans (scans_blank code (by decide))
  rw [bindingText_eq]
  refine (scans_blank code (by decide)).trans ((scans_blank code (by decide)).trans ((scans_string code plain).trans ?_))
  refine (Scans.of_code (by decide) run_assigned _).trans ((scans_blank code (by decide)).trans (pkgs.trans ?_))
  exact accessor.trans line

theorem scans_bindings {attrs : List String} (plain : ∀ attr ∈ attrs, Plain false attr.toList) (rest : List Char) :
    Scans [.code] [.code] (attrs.flatMap bindingText ++ rest) rest (attrs.flatMap fun attr => bindingTokens attr.toList) := by
  induction attrs with
  | nil => exact .refl _ _
  | cons attr attrs ih =>
    rw [List.flatMap_cons, List.flatMap_cons, List.append_assoc]
    exact (scans_binding (plain attr List.mem_cons_self) _).trans
      (ih fun other member => plain other (List.mem_cons_of_mem attr member))

theorem scans_import (rest : List Char) : Scans [] [] (importText ++ rest) rest importTokens := by
  have scans := (Scans.of_code (by decide) run_importText rest).trans (scans_blank (by decide) (by decide))
  rwa [List.append_nil] at scans

theorem scans_attrs {attrs : List String} (plain : ∀ attr ∈ attrs, Plain false attr.toList) :
    Scans [] [] (openText ++ (attrs.flatMap bindingText ++ "\x7d\n".toList)) []
      (openTokens ++ ((attrs.flatMap fun attr => bindingTokens attr.toList) ++ [.symbol '}'])) := by
  have code : [Mode.code].head? ≠ some .string := by decide
  have opens := Scans.of_code (by decide) run_openText (attrs.flatMap bindingText ++ "\x7d\n".toList)
  have closes := (@scans_close _ ['\n'] code).trans (scans_blank (by decide) (by decide))
  exact opens.trans ((scans_blank code (by decide)).trans ((scans_bindings plain _).trans closes))

/-- A file that the text can name: from the top, with no slash too many, and without a step
back. -/
structure PlainFile (file : List Char) : Prop where
  absolute : Lib.UnixPath.isAbsolute file = true
  characters : ∀ character ∈ file, pathOrSlash character = true
  named : [] ∉ pathNames file
  forward : ['.', '.'] ∉ fileSteps file

theorem isAbsolute_iff {file : List Char} : Lib.UnixPath.isAbsolute file = true ↔ ∃ rest, file = '/' :: rest := by
  rw [Lib.UnixPath.isAbsolute, decide_eq_true_eq, List.head?_eq_some_iff]

theorem PlainFile.startsPath {file : List Char} (plain : PlainFile file) : startsPath file = true := by
  obtain ⟨rest, rfl⟩ := isAbsolute_iff.mp plain.absolute
  have named := plain.named
  rw [pathNames, splitOn_cons, if_pos rfl, List.tail_cons] at named
  rw [NixSyntax.startsPath, pathNames, splitOn_cons, if_pos rfl, List.tail_cons]
  cases pieces : rest.splitOn '/' with
  | nil => exact absurd pieces (List.splitOn_ne_nil _ _)
  | cons first others =>
    rw [pieces, List.mem_cons, not_or] at named
    exact decide_eq_true (Ne.symm named.1)

theorem walk_forward {names : List (List Char)} (forward : ['.', '.'] ∉ names) (place : List (List Char)) :
    Lib.UnixPath.walk place names = place ++ names := by
  induction names generalizing place with
  | nil => exact (List.append_nil place).symm
  | cons name rest ih =>
    rw [List.mem_cons, not_or] at forward
    rw [Lib.UnixPath.walk_cons, Lib.UnixPath.enter, if_neg (Ne.symm forward.1), ih forward.2, List.append_assoc,
      List.singleton_append]

theorem walk_top (names : List (List Char)) :
    Lib.UnixPath.walk [] names = Lib.UnixPath.walk [] (names.dropWhile (· = ['.', '.'])) := by
  induction names with
  | nil => rfl
  | cons name rest ih =>
    by_cases up : name = ['.', '.']
    · rw [List.dropWhile_cons_of_pos (by simp [up]), ← ih, Lib.UnixPath.walk_cons, Lib.UnixPath.enter, if_pos up]
      rfl
    · rw [List.dropWhile_cons_of_neg (by simp [up])]

theorem parent_not_mem_walk (place names : List (List Char)) (forward : ['.', '.'] ∉ place) :
    ['.', '.'] ∉ Lib.UnixPath.walk place names := by
  induction names generalizing place with
  | nil => exact forward
  | cons name rest ih =>
    rw [Lib.UnixPath.walk_cons]
    apply ih
    rw [Lib.UnixPath.enter]
    split
    next => exact fun member => forward ((List.dropLast_sublist place).mem member)
    next other => simpa [forward] using Ne.symm other

theorem locate_iff (file : List Char) :
    Lib.UnixPath.locate ⟨file⟩ = fileSteps file ↔ ['.', '.'] ∉ fileSteps file := by
  constructor
  · intro same
    rw [← same]
    exact parent_not_mem_walk [] _ List.not_mem_nil
  · intro forward
    rw [Lib.UnixPath.locate, walk_top]
    exact walk_forward forward []

theorem openText_cons : openText = ' ' :: openText.tail := by decide +kernel

theorem openText_blank (rest : List Char) : (openText ++ rest).takeWhile pathOrSlash = [] := by
  rw [openText_cons]
  rfl

theorem scans_file {file : List Char} (plain : PlainFile file) (rest : List Char) :
    Scans [] [] (file ++ (openText ++ rest)) (openText ++ rest) [.path file] := by
  cases file with
  | nil => exact absurd plain.absolute (by decide)
  | cons first file =>
    apply Scans.of_next
    rw [next_of_code (by decide), List.cons_append,
      nextCode_run plain.characters (openText_blank rest) plain.startsPath, if_neg plain.named]

/-- The tokens of the whole text. -/
def sourceTokens (file : List Char) (attrs : List String) : List Token :=
  importTokens ++ (.path file :: (openTokens ++ ((attrs.flatMap fun attr => bindingTokens attr.toList) ++ [.symbol '}'])))

theorem lexes_source_iff {originalFile : String} {changedAttrs : List String} (file : PlainFile originalFile.toList)
    (attrs : ∀ attr ∈ changedAttrs, Plain false attr.toList) {tokens : List Token} :
    Lexes [] (buildNixSource originalFile changedAttrs).toList tokens ↔
      tokens = sourceTokens originalFile.toList changedAttrs := by
  rw [toList_buildNixSource]
  exact ((scans_import _).trans ((scans_file file _).trans (scans_attrs attrs))).whole

end EkaCI
