import Mathlib.Data.List.Infix
import Mathlib.Data.List.TakeWhile

/-! How a Nix text falls into tokens, one after the other. What no grammar rule of this
development reads (numbers, operators of several characters, indented strings) is left as
the symbols it is made of. -/

namespace EkaCI.NixSyntax

inductive Token where
  | word (name : List Char)
  | keyword (name : List Char)
  | path (text : List Char)
  | quote
  /-- What stands in a string, with its escapes resolved. -/
  | part (content : List Char)
  | interpolation
  | symbol (character : Char)
  deriving DecidableEq

/-- Where a closing brace or a quote leads back to. -/
inductive Mode where
  | code
  | string
  deriving DecidableEq

def isBlank (character : Char) : Bool := character ∈ [' ', '\t', '\n', '\r']

def wordStart (character : Char) : Bool := character.isAlpha || character = '_'

def wordRest (character : Char) : Bool :=
  character.isAlphanum || character = '_' || character = '\'' || character = '-'

def pathCharacter (character : Char) : Bool := character.isAlphanum || character ∈ ['.', '_', '-', '+']

def pathOrSlash (character : Char) : Bool := pathCharacter character || character = '/'

def keywords : List String := ["if", "then", "else", "assert", "with", "let", "in", "rec", "inherit", "or"]

def classify (name : List Char) : Token :=
  if name ∈ keywords.map String.toList then .keyword name else .word name

/-- What could be a path at this place. -/
def pathRun (text : List Char) : List Char := text.takeWhile pathOrSlash

def pathNames (run : List Char) : List (List Char) := (run.splitOn '/').tail

/-- A path has a slash with a name right behind it. -/
def startsPath (run : List Char) : Bool :=
  match pathNames run with
  | [] => false
  | name :: _ => name ≠ []

def skipComment : List Char → Option (List Char)
  | [] => none
  | character :: rest => if character = '*' ∧ rest.head? = some '/' then some rest.tail else skipComment rest

def nul : Char := Char.ofNat 0

def unescape (character : Char) : Char :=
  if character = 'n' then '\n' else if character = 'r' then '\r' else if character = 't' then '\t' else character

/-- The text of a string up to its end or to an interpolation. A dollar sign takes the
next one along, which then begins no interpolation, and line ends become line feeds. -/
def readString : Bool → List Char → List Char × List Char
  | _, [] => ([], [])
  | paired, character :: rest =>
    if character = '"' ∨ character = nul then ([], character :: rest)
    else if character = '\\' then
      match rest with
      | [] => ([], [character])
      | escaped :: rest => ((readString false rest).map (unescape escaped :: ·) id)
    else if character = '$' then
      if paired = false ∧ rest.head? = some '{' then ([], character :: rest)
      else (readString (!paired) rest).map (character :: ·) id
    else if character = '\r' then
      if rest.head? = some '\n' then readString false rest else (readString false rest).map ('\n' :: ·) id
    else (readString false rest).map (character :: ·) id

theorem readString_suffix (paired : Bool) (text : List Char) : (readString paired text).2 <:+ text := by
  fun_induction readString paired text with
  | case1 => exact List.suffix_rfl
  | case2 => exact List.suffix_rfl
  | case3 => exact List.suffix_rfl
  | case4 paired escaped rest _ ih => exact (ih.trans (List.suffix_cons escaped rest)).trans (List.suffix_cons _ _)
  | case5 => exact List.suffix_rfl
  | case6 paired rest _ _ _ ih => exact ih.trans (List.suffix_cons _ _)
  | case7 paired rest _ _ _ _ ih => exact ih.trans (List.suffix_cons _ _)
  | case8 paired rest _ _ _ _ ih => exact ih.trans (List.suffix_cons _ _)
  | case9 paired character rest _ _ _ _ ih => exact ih.trans (List.suffix_cons _ _)

theorem readString_lineFeed (paired : Bool) (rest : List Char) :
    readString paired ('\n' :: rest) = (readString false rest).map ('\n' :: ·) id := by
  rw [readString.eq_def]
  rfl

variable {paired : Bool} {text rest last : List Char} {character stop : Char} {count steps : Nat}
  {after modes : List Mode} {tokens all : List Token}

theorem head_readString (unescaped : '\\' ∉ text) (head : (readString paired text).1.head? = some '{') :
    text.head? = some '{' := by
  revert unescaped head
  fun_cases readString paired text with
  | case7 _ rest lineFeed =>
    obtain ⟨rest, rfl⟩ := List.head?_eq_some_iff.mp lineFeed
    simp [readString_lineFeed]
  | _ => simp

/-- The tokens of one step, the modes after it, and the text that is left. -/
abbrev Scan := List Token × List Mode × List Char

def nextCode (modes : List Mode) : List Char → Option Scan
  | [] => none
  | character :: rest =>
    if isBlank character then some ([], modes, rest)
    else if character = nul then none
    else if character = '#' then some ([], modes, rest.dropWhile fun other => other ≠ '\n' ∧ other ≠ '\r')
    else if startsPath (pathRun (character :: rest)) then
      -- A slash at the end of a path is an error.
      if [] ∈ pathNames (pathRun (character :: rest)) then none
      else some ([.path (pathRun (character :: rest))], modes, (character :: rest).dropWhile pathOrSlash)
    else if wordStart character then
      some ([classify (character :: rest.takeWhile wordRest)], modes, rest.dropWhile wordRest)
    else if character = '/' ∧ rest.head? = some '*' then
      (skipComment rest.tail).map ([], modes, ·)
    else if character = '"' then some ([.quote], .string :: modes, rest)
    else if character = '$' ∧ rest.head? = some '{' then some ([.interpolation], .code :: modes, rest.tail)
    else if character = '{' then some ([.symbol character], .code :: modes, rest)
    else if character = '}' then some ([.symbol character], modes.tail, rest)
    else some ([.symbol character], modes, rest)

def nextString (outer : List Mode) (text : List Char) : Option Scan :=
  match text with
  | [] => none
  | character :: rest =>
    if character = '"' then some ([.quote], outer, rest)
    else if character = '$' ∧ rest.head? = some '{' then
      some ([.interpolation], .code :: .string :: outer, rest.tail)
    else if (readString false text).2 = text then none
    else some ([.part (readString false text).1], .string :: outer, (readString false text).2)

def next (modes : List Mode) (text : List Char) : Option Scan :=
  match modes with
  | .string :: outer => nextString outer text
  | modes => nextCode modes text

/-- The tokens of a whole text. -/
inductive Lexes : List Mode → List Char → List Token → Prop
  | done : Lexes [] [] []
  | step {modes after : List Mode} {text rest : List Char} {tokens others : List Token}
      (scan : next modes text = some (tokens, after, rest)) (left : Lexes after rest others) :
      Lexes modes text (tokens ++ others)

/-- An interpolation begins at an unpaired dollar sign before a brace. -/
def interpolates : Bool → List Char → Bool
  | _, [] => false
  | paired, character :: rest =>
    if character = '$' then (paired = false ∧ rest.head? = some '{') || interpolates (!paired) rest
    else interpolates false rest

/-- A string has the text for its content: nothing in it ends the string, is an escape or a
line end that is changed, or begins an interpolation. -/
structure Plain (paired : Bool) (text : List Char) : Prop where
  quote : '"' ∉ text
  escape : '\\' ∉ text
  lineEnd : '\r' ∉ text
  null : nul ∉ text
  dollar : interpolates paired text = false

theorem Plain.nil (paired : Bool) : Plain paired [] := by
  constructor <;> simp [interpolates]

theorem plain_cons_iff :
    Plain paired (character :: rest) ↔
      (character ≠ '"' ∧ character ≠ '\\' ∧ character ≠ '\r' ∧ character ≠ nul) ∧
        if character = '$' then ¬ (paired = false ∧ rest.head? = some '{') ∧ Plain (!paired) rest
        else Plain false rest := by
  constructor
  · intro ⟨quote, escape, lineEnd, null, dollar⟩
    simp only [List.mem_cons, not_or] at quote escape lineEnd null
    refine ⟨⟨Ne.symm quote.1, Ne.symm escape.1, Ne.symm lineEnd.1, Ne.symm null.1⟩, ?_⟩
    rw [interpolates] at dollar
    split
    next same =>
      rw [if_pos same, Bool.or_eq_false_iff, decide_eq_false_iff_not] at dollar
      exact ⟨dollar.1, quote.2, escape.2, lineEnd.2, null.2, dollar.2⟩
    next other =>
      rw [if_neg other] at dollar
      exact ⟨quote.2, escape.2, lineEnd.2, null.2, dollar⟩
  · rintro ⟨⟨quote, escape, lineEnd, null⟩, left⟩
    have all : (∃ tail, Plain tail rest) ∧ interpolates paired (character :: rest) = false := by
      rw [interpolates]
      split at left
      next same =>
        rw [if_pos same, Bool.or_eq_false_iff, decide_eq_false_iff_not]
        exact ⟨⟨_, left.2⟩, left.1, left.2.dollar⟩
      next other =>
        rw [if_neg other]
        exact ⟨⟨_, left⟩, left.dollar⟩
    obtain ⟨⟨tail, plain⟩, dollar⟩ := all
    constructor
    · simp [quote.symm, plain.quote]
    · simp [escape.symm, plain.escape]
    · simp [lineEnd.symm, plain.lineEnd]
    · simp [null.symm, plain.null]
    · exact dollar

theorem readString_quote (plain : Plain paired text) (rest : List Char) :
    readString paired (text ++ '"' :: rest) = (text, '"' :: rest) := by
  induction text generalizing paired with
  | nil =>
    rw [List.nil_append, readString.eq_def]
    rfl
  | cons character text ih =>
    obtain ⟨⟨quote, escape, lineEnd, null⟩, left⟩ := plain_cons_iff.mp plain
    rw [List.cons_append, readString.eq_def]
    simp only [quote, escape, lineEnd, null, or_self, if_false]
    split at left
    next same =>
      have brace : ¬ (paired = false ∧ (text ++ '"' :: rest).head? = some '{') := by
        cases text with
        | nil => simp
        | cons => exact left.1
      rw [if_pos same, if_neg brace, ih left.2]
      rfl
    next other =>
      rw [if_neg other, ih left]
      rfl

theorem plain_readString (unescaped : '\\' ∉ text) : Plain paired (readString paired text).1 := by
  fun_induction readString paired text with
  | case1 => exact .nil _
  | case2 => exact .nil _
  | case3 => exact .nil _
  | case4 paired escaped rest stop ih => simp at unescaped
  | case5 => exact .nil _
  | case6 paired rest unpaired stop escape ih =>
    have left : '\\' ∉ rest := fun member => unescaped (List.mem_cons_of_mem _ member)
    refine plain_cons_iff.mpr ⟨by decide, ?_⟩
    rw [if_pos rfl]
    exact ⟨fun both => unpaired ⟨both.1, head_readString left both.2⟩, ih left⟩
  | case7 paired rest lineFeed stop escape dollar ih =>
    have plain := ih fun member => unescaped (List.mem_cons_of_mem _ member)
    obtain ⟨rest, rfl⟩ := List.head?_eq_some_iff.mp lineFeed
    rw [readString_lineFeed, Prod.map_fst] at plain ⊢
    obtain ⟨characters, left⟩ := plain_cons_iff.mp plain
    refine plain_cons_iff.mpr ⟨characters, ?_⟩
    rwa [if_neg (by decide)] at left ⊢
  | case8 paired rest lineFeed stop escape dollar ih =>
    have plain := ih fun member => unescaped (List.mem_cons_of_mem _ member)
    exact plain_cons_iff.mpr ⟨by decide, plain⟩
  | case9 paired character rest stop escape dollar lineEnd ih =>
    have plain := ih fun member => unescaped (List.mem_cons_of_mem _ member)
    refine plain_cons_iff.mpr ⟨⟨fun same => stop (.inl same), escape, lineEnd, fun same => stop (.inr same)⟩, ?_⟩
    rwa [if_neg dollar]

theorem run_readString (run : List.replicate count '\\' <+: (readString paired text).1) :
    List.replicate (2 * count) '\\' <+: text := by
  induction count generalizing paired text with
  | zero => exact List.nil_prefix
  | succ count ih =>
    revert run
    rw [List.replicate_succ]
    fun_cases readString paired text with
    | case4 _ escaped rest =>
      intro run
      obtain ⟨same, left⟩ := List.cons_prefix_cons.mp run
      have backslash : escaped = '\\' := by
        rw [unescape] at same
        split_ifs at same
        · exact absurd same (by decide)
        · exact absurd same (by decide)
        · exact absurd same (by decide)
        · exact same.symm
      rw [backslash, Nat.mul_succ, List.replicate_succ, List.replicate_succ]
      exact List.cons_prefix_cons.mpr ⟨rfl, List.cons_prefix_cons.mpr ⟨rfl, ih left⟩⟩
    | case7 _ rest lineFeed =>
      obtain ⟨rest, rfl⟩ := List.head?_eq_some_iff.mp lineFeed
      simp [readString_lineFeed]
    | case9 _ character rest stop escape =>
      intro run
      exact absurd (List.cons_prefix_cons.mp run).1.symm escape
    | _ => simp

/-- What is left of a string's content after its first character was read from what is left
of the text. -/
theorem suffix_readString_cons (within : rest <:+ text) (suffix : last <:+ character :: (readString paired rest).1)
    (proper : last ≠ character :: (readString paired rest).1)
    (ih : last <:+ (readString paired rest).1 → last ≠ (readString paired rest).1 →
      ∃ again start, start <:+ rest ∧ last = (readString again start).1) :
    ∃ again start, start <:+ text ∧ last = (readString again start).1 := by
  obtain same | inside := List.suffix_cons_iff.mp suffix
  · exact absurd same proper
  by_cases whole : last = (readString paired rest).1
  · exact ⟨paired, rest, within, whole⟩
  · obtain ⟨again, start, later, read⟩ := ih inside whole
    exact ⟨again, start, later.trans within, read⟩

theorem suffix_readString (suffix : last <:+ (readString paired text).1) :
    ∃ again start, start <:+ text ∧ last = (readString again start).1 := by
  by_cases whole : last = (readString paired text).1
  · exact ⟨paired, text, List.suffix_rfl, whole⟩
  fun_induction readString paired text with
  | case4 paired escaped rest stop ih =>
    exact suffix_readString_cons ((List.suffix_cons _ _).trans (List.suffix_cons _ _)) suffix whole ih
  | case6 paired rest unpaired stop escape ih => exact suffix_readString_cons (List.suffix_cons _ _) suffix whole ih
  | case7 paired rest lineFeed stop escape dollar ih =>
    obtain ⟨again, start, later, read⟩ := ih suffix whole
    exact ⟨again, start, later.trans (List.suffix_cons _ _), read⟩
  | case8 paired rest lineFeed stop escape dollar ih => exact suffix_readString_cons (List.suffix_cons _ _) suffix whole ih
  | case9 paired character rest stop escape dollar lineEnd ih =>
    exact suffix_readString_cons (List.suffix_cons _ _) suffix whole ih
  | _ => exact absurd (List.suffix_nil.mp suffix) whole

theorem infix_readString (run : List.replicate count '\\' <:+: (readString paired text).1) :
    List.replicate (2 * count) '\\' <:+: text := by
  obtain ⟨last, begins, ends⟩ := List.infix_iff_prefix_suffix.mp run
  obtain ⟨again, start, inside, rfl⟩ := suffix_readString ends
  exact (run_readString begins).isInfix.trans inside.isInfix

/-- What a token shows of the text that it was read from. -/
def Token.Origin (text : List Char) : Token → Prop
  | .word name => ∀ character ∈ name, wordRest character
  | .path run => ∀ character ∈ run, pathOrSlash character
  | .part content => ∃ start, start <:+ text ∧ content = (readString false start).1
  | _ => True

theorem Token.Origin.mono {whole : List Char} {token : Token} (origin : token.Origin text) (suffix : text <:+ whole) :
    token.Origin whole := by
  cases token with
  | part content =>
    obtain ⟨start, inside, read⟩ := origin
    exact ⟨start, inside.trans suffix, read⟩
  | _ => exact origin

theorem wordRest_of_wordStart (start : wordStart character = true) : wordRest character = true := by
  rw [wordStart, Bool.or_eq_true] at start
  rw [wordRest, Char.isAlphanum]
  obtain letter | score := start
  · rw [letter]
    rfl
  · rw [score, Bool.or_true]
    rfl

theorem classify_origin {name : List Char} (word : ∀ character ∈ name, wordRest character) :
    (classify name).Origin text := by
  rw [classify]
  split
  · trivial
  · exact word

theorem skipComment_suffix (skipped : skipComment text = some rest) : rest <:+ text := by
  fun_induction skipComment text with
  | case1 => cases skipped
  | case2 character left ends =>
    obtain rfl := Option.some.inj skipped
    exact (List.tail_suffix _).trans (List.suffix_cons _ _)
  | case3 character left _ ih => exact (ih skipped).trans (List.suffix_cons _ _)

theorem nextCode_origin (scan : nextCode modes text = some (tokens, after, rest)) :
    rest <:+ text ∧ ∀ token ∈ tokens, token.Origin text := by
  cases text with
  | nil => cases scan
  | cons character text =>
    have whole := List.suffix_cons character text
    rw [nextCode] at scan
    by_cases blank : isBlank character = true
    · rw [if_pos blank] at scan
      cases scan
      exact ⟨whole, by simp⟩
    rw [if_neg blank] at scan
    by_cases null : character = nul
    · rw [if_pos null] at scan
      cases scan
    rw [if_neg null] at scan
    by_cases comment : character = '#'
    · rw [if_pos comment] at scan
      cases scan
      exact ⟨(List.dropWhile_suffix _).trans whole, by simp⟩
    rw [if_neg comment] at scan
    by_cases path : startsPath (pathRun (character :: text)) = true
    · rw [if_pos path] at scan
      by_cases slash : [] ∈ pathNames (pathRun (character :: text))
      · rw [if_pos slash] at scan
        cases scan
      · rw [if_neg slash] at scan
        cases scan
        refine ⟨List.dropWhile_suffix _, ?_⟩
        simp only [List.mem_singleton, forall_eq]
        exact fun other member => List.mem_takeWhile_imp member
    rw [if_neg path] at scan
    by_cases word : wordStart character = true
    · rw [if_pos word] at scan
      cases scan
      refine ⟨(List.dropWhile_suffix _).trans whole, ?_⟩
      simp only [List.mem_singleton, forall_eq]
      apply classify_origin
      simp only [List.mem_cons, forall_eq_or_imp]
      exact ⟨wordRest_of_wordStart word, fun other member => List.mem_takeWhile_imp member⟩
    rw [if_neg word] at scan
    by_cases block : character = '/' ∧ text.head? = some '*'
    · rw [if_pos block] at scan
      obtain ⟨left, skipped, same⟩ := Option.map_eq_some_iff.mp scan
      cases same
      exact ⟨((skipComment_suffix skipped).trans (List.tail_suffix _)).trans whole, by simp⟩
    rw [if_neg block] at scan
    -- What is left are single characters, and the two that open an interpolation.
    by_cases quote : character = '"'
    · rw [if_pos quote] at scan
      cases scan
      exact ⟨whole, by simp [Token.Origin]⟩
    rw [if_neg quote] at scan
    by_cases dollar : character = '$' ∧ text.head? = some '{'
    · rw [if_pos dollar] at scan
      cases scan
      exact ⟨(List.tail_suffix _).trans whole, by simp [Token.Origin]⟩
    rw [if_neg dollar] at scan
    split at scan
    · cases scan
      exact ⟨whole, by simp [Token.Origin]⟩
    · split at scan
      · cases scan
        exact ⟨whole, by simp [Token.Origin]⟩
      · cases scan
        exact ⟨whole, by simp [Token.Origin]⟩

theorem nextString_origin {outer : List Mode} (scan : nextString outer text = some (tokens, after, rest)) :
    rest <:+ text ∧ ∀ token ∈ tokens, token.Origin text := by
  cases text with
  | nil => cases scan
  | cons character text =>
    have whole := List.suffix_cons character text
    rw [nextString] at scan
    split_ifs at scan
    · cases scan
      exact ⟨whole, by simp [Token.Origin]⟩
    · cases scan
      exact ⟨(List.tail_suffix _).trans whole, by simp [Token.Origin]⟩
    · cases scan
      refine ⟨readString_suffix _ _, ?_⟩
      simp only [List.mem_singleton, forall_eq]
      exact ⟨_, List.suffix_rfl, rfl⟩

theorem next_origin (scan : next modes text = some (tokens, after, rest)) :
    rest <:+ text ∧ ∀ token ∈ tokens, token.Origin text := by
  rw [next.eq_def] at scan
  split at scan
  · exact nextString_origin scan
  · exact nextCode_origin scan

theorem Lexes.origin (lexes : Lexes modes text tokens) : ∀ token ∈ tokens, token.Origin text := by
  induction lexes with
  | done => simp
  | step scan left ih =>
    obtain ⟨suffix, origin⟩ := next_origin scan
    intro token member
    cases List.mem_append.mp member with
    | inl here => exact origin token here
    | inr later => exact (ih token later).mono suffix

theorem Lexes.next_ne_none (lexes : Lexes modes (character :: text) tokens) : next modes (character :: text) ≠ none := by
  cases lexes with
  | step scan =>
    rw [scan]
    exact Option.some_ne_none _

/-- Up to some place the text falls into these tokens, whatever comes after it. -/
def Scans (modes after : List Mode) (text rest : List Char) (tokens : List Token) : Prop :=
  ∀ all, Lexes modes text all ↔ ∃ others, all = tokens ++ others ∧ Lexes after rest others

theorem Scans.of_next (scan : next modes text = some (tokens, after, rest)) : Scans modes after text rest tokens := by
  intro all
  constructor
  · intro lexes
    cases lexes with
    | done => cases scan
    | step again left =>
      cases Option.some.inj (again.symm.trans scan)
      exact ⟨_, rfl, left⟩
  · rintro ⟨others, rfl, left⟩
    exact .step scan left

theorem Scans.refl (modes : List Mode) (text : List Char) : Scans modes modes text text [] := by
  intro all
  simp

theorem Scans.trans {between : List Mode} {middle : List Char} {others : List Token}
    (first : Scans modes between text middle tokens) (second : Scans between after middle rest others) :
    Scans modes after text rest (tokens ++ others) := by
  intro all
  rw [first all]
  constructor
  · rintro ⟨left, rfl, lexes⟩
    obtain ⟨last, rfl, ends⟩ := (second left).mp lexes
    exact ⟨last, (List.append_assoc _ _ _).symm, ends⟩
  · rintro ⟨last, rfl, lexes⟩
    exact ⟨others ++ last, List.append_assoc _ _ _, (second _).mpr ⟨last, rfl, lexes⟩⟩

theorem lexes_nil_iff : Lexes [] [] all ↔ all = [] := by
  constructor
  · intro lexes
    cases lexes with
    | done => rfl
    | step scan => cases scan
  · rintro rfl
    exact .done

theorem Scans.whole (scans : Scans [] [] text [] tokens) : Lexes [] text all ↔ all = tokens := by
  rw [scans all]
  simp only [lexes_nil_iff, exists_eq_right, List.append_nil]

/-- A fixed number of steps in code. -/
def run : Nat → List Mode → List Char → Option Scan
  | 0, modes, text => some ([], modes, text)
  | steps + 1, modes, text =>
    if modes.head? = some .string then none
    else
      (nextCode modes text).bind fun scan =>
        (run steps scan.2.1 scan.2.2).map fun later => (scan.1 ++ later.1, later.2)

theorem next_of_code (code : modes.head? ≠ some .string) (text : List Char) :
    next modes text = nextCode modes text := by
  unfold next
  split
  · exact absurd rfl code
  · rfl

theorem Scans.of_run (scan : run steps modes text = some (tokens, after, rest)) : Scans modes after text rest tokens := by
  induction steps generalizing modes text tokens with
  | zero =>
    cases scan
    exact .refl _ _
  | succ steps ih =>
    simp only [run, Option.bind_eq_some_iff, Option.map_eq_some_iff, Option.ite_none_left_eq_some] at scan
    obtain ⟨code, ⟨first, middle, between⟩, step, ⟨second, last, left⟩, later, same⟩ := scan
    cases same
    rw [← next_of_code code] at step
    exact (Scans.of_next step).trans (ih later)

theorem blank_not_path (blank : isBlank character = true) : pathOrSlash character = false := by
  simp only [isBlank, List.mem_cons, List.not_mem_nil, or_false, decide_eq_true_eq] at blank
  obtain rfl | rfl | rfl | rfl := blank <;> rfl

theorem blank_not_word (blank : isBlank character = true) : wordRest character = false := by
  simp only [isBlank, List.mem_cons, List.not_mem_nil, or_false, decide_eq_true_eq] at blank
  obtain rfl | rfl | rfl | rfl := blank <;> rfl

section Boundary

variable {text : List Char} (more : List Char)

theorem dropWhile_ne_nil {reads : Char → Bool} (ahead : stop ∈ text) (ends : reads stop = false) :
    text.dropWhile reads ≠ [] := by
  intro empty
  have all := List.dropWhile_eq_nil_iff.mp empty stop ahead
  rw [ends] at all
  cases all

theorem dropWhile_append_left {reads : Char → Bool} (left : text.dropWhile reads ≠ []) :
    (text ++ more).dropWhile reads = text.dropWhile reads ++ more := by
  rw [List.dropWhile_append, if_neg (by simpa using left)]

theorem takeWhile_append_left {reads : Char → Bool} (left : text.dropWhile reads ≠ []) :
    (text ++ more).takeWhile reads = text.takeWhile reads := by
  rw [List.takeWhile_append, if_neg]
  intro same
  have whole := congrArg List.length (List.takeWhile_append_dropWhile (p := reads) (l := text))
  rw [List.length_append, same] at whole
  exact left (List.length_eq_zero_iff.mp (by omega))

theorem skipComment_append (skipped : skipComment text = some rest) :
    skipComment (text ++ more) = some (rest ++ more) := by
  fun_induction skipComment text with
  | case1 => cases skipped
  | case2 character left ends =>
    obtain ⟨tail, rfl⟩ := List.head?_eq_some_iff.mp ends.2
    cases skipped
    simp [skipComment, ends.1]
  | case3 character left other ih =>
    cases left with
    | nil => cases skipped
    | cons second left =>
      have still : ¬ (character = '*' ∧ (second :: left ++ more).head? = some '/') := other
      rw [List.cons_append, skipComment, if_neg still]
      exact ih skipped

theorem nextCode_append (blank : isBlank stop = true) (scan : nextCode modes text = some (tokens, after, rest))
    (ahead : stop ∈ rest) : nextCode modes (text ++ more) = some (tokens, after, rest ++ more) := by
  have within : stop ∈ text := (nextCode_origin scan).1.mem ahead
  cases text with
  | nil => cases within
  | cons character text =>
    rw [nextCode] at scan
    rw [List.cons_append, nextCode]
    by_cases first : isBlank character = true
    · rw [if_pos first] at scan ⊢
      cases scan
      rfl
    have inside : stop ∈ text := by
      cases List.mem_cons.mp within with
      | inl same => exact absurd (same ▸ blank) first
      | inr inside => exact inside
    have nonempty : text ≠ [] := List.ne_nil_of_mem inside
    have pathLeft := dropWhile_ne_nil within (blank_not_path blank)
    have wordLeft := dropWhile_ne_nil inside (blank_not_word blank)
    have sameRun : pathRun (character :: (text ++ more)) = pathRun (character :: text) :=
      takeWhile_append_left more pathLeft
    have sameLeft := dropWhile_append_left more pathLeft
    rw [List.cons_append] at sameLeft
    rw [if_neg first] at scan ⊢
    rw [sameRun, sameLeft, takeWhile_append_left more wordLeft, dropWhile_append_left more wordLeft,
      List.head?_append_of_ne_nil _ nonempty, List.tail_append_of_ne_nil nonempty]
    by_cases null : character = nul
    · rw [if_pos null] at scan
      cases scan
    rw [if_neg null] at scan ⊢
    by_cases comment : character = '#'
    · rw [if_pos comment] at scan ⊢
      cases scan
      rw [dropWhile_append_left more (List.ne_nil_of_mem ahead)]
    rw [if_neg comment] at scan ⊢
    by_cases path : startsPath (pathRun (character :: text)) = true
    · rw [if_pos path] at scan ⊢
      by_cases slash : [] ∈ pathNames (pathRun (character :: text))
      · rw [if_pos slash] at scan
        cases scan
      · rw [if_neg slash] at scan ⊢
        cases scan
        rfl
    rw [if_neg path] at scan ⊢
    by_cases word : wordStart character = true
    · rw [if_pos word] at scan ⊢
      cases scan
      rfl
    rw [if_neg word] at scan ⊢
    by_cases block : character = '/' ∧ text.head? = some '*'
    · rw [if_pos block] at scan ⊢
      obtain ⟨text, skipped, same⟩ := Option.map_eq_some_iff.mp scan
      cases same
      rw [skipComment_append more skipped]
      rfl
    rw [if_neg block] at scan ⊢
    by_cases quote : character = '"'
    · rw [if_pos quote] at scan ⊢
      cases scan
      rfl
    rw [if_neg quote] at scan ⊢
    by_cases dollar : character = '$' ∧ text.head? = some '{'
    · rw [if_pos dollar] at scan ⊢
      cases scan
      rfl
    rw [if_neg dollar] at scan ⊢
    by_cases opens : character = '{'
    · rw [if_pos opens] at scan ⊢
      cases scan
      rfl
    rw [if_neg opens] at scan ⊢
    by_cases closes : character = '}'
    · rw [if_pos closes] at scan ⊢
      cases scan
      rfl
    rw [if_neg closes] at scan ⊢
    cases scan
    rfl

theorem run_append (blank : isBlank stop = true) (scan : run steps modes text = some (tokens, after, rest))
    (ahead : stop ∈ rest) : rest <:+ text ∧ run steps modes (text ++ more) = some (tokens, after, rest ++ more) := by
  induction steps generalizing modes text tokens with
  | zero =>
    cases scan
    exact ⟨List.suffix_rfl, rfl⟩
  | succ steps ih =>
    simp only [run, Option.bind_eq_some_iff, Option.map_eq_some_iff, Option.ite_none_left_eq_some] at scan
    obtain ⟨code, ⟨first, middle, between⟩, step, ⟨second, last, left⟩, later, same⟩ := scan
    cases same
    obtain ⟨suffix, again⟩ := ih later
    have first := nextCode_append more blank step (suffix.mem ahead)
    refine ⟨suffix.trans (nextCode_origin step).1, ?_⟩
    rw [run, if_neg code, first, Option.bind_some, again]
    rfl

end Boundary

theorem Scans.of_code (blank : isBlank stop = true) (scan : run steps modes text = some (tokens, after, [stop]))
    (more : List Char) : Scans modes after (text ++ more) (stop :: more) tokens :=
  .of_run (run_append more blank scan List.mem_cons_self).2

/-- No path begins here. -/
def Slashless (text : List Char) : Prop := '/' ∉ pathRun text

theorem Slashless.startsPath (slashless : Slashless text) : startsPath (pathRun text) = false := by
  rw [NixSyntax.startsPath, pathNames, List.splitOn_eq_singleton slashless]
  rfl

theorem slashless_of_not_path (rest : List Char) (ends : pathOrSlash stop = false) : Slashless (stop :: rest) := by
  rw [Slashless, pathRun, List.takeWhile_cons_of_neg (by simp [ends])]
  exact List.not_mem_nil

theorem Slashless.append {front : List Char} (without : '/' ∉ front) (slashless : Slashless text) :
    Slashless (front ++ text) := by
  intro member
  rw [pathRun, List.takeWhile_append] at member
  split at member
  · cases List.mem_append.mp member with
    | inl here => exact without here
    | inr later => exact slashless later
  · exact without ((List.takeWhile_prefix _).mem member)

section Steps

variable {modes : List Mode} {rest : List Char} (code : modes.head? ≠ some .string)

include code

theorem scans_blank {character : Char} (blank : isBlank character = true) :
    Scans modes modes (character :: rest) rest [] := by
  apply Scans.of_next
  rw [next_of_code code, nextCode, if_pos blank]

theorem scans_semicolon : Scans modes modes (';' :: rest) rest [.symbol ';'] := by
  have noPath := (slashless_of_not_path rest (by decide : pathOrSlash ';' = false)).startsPath
  apply Scans.of_next
  rw [next_of_code code, nextCode, noPath]
  rfl

theorem scans_close : Scans modes modes.tail ('}' :: rest) rest [.symbol '}'] := by
  have noPath := (slashless_of_not_path rest (by decide : pathOrSlash '}' = false)).startsPath
  apply Scans.of_next
  rw [next_of_code code, nextCode, noPath]
  rfl

theorem scans_dot (slashless : Slashless rest) : Scans modes modes ('.' :: rest) rest [.symbol '.'] := by
  have noPath := (@Slashless.append _ ['.'] (by decide) slashless).startsPath
  apply Scans.of_next
  rw [next_of_code code, nextCode, ← List.singleton_append, noPath]
  rfl

theorem scans_word {first : Char} {name : List Char} (start : wordStart first = true)
    (word : ∀ character ∈ name, wordRest character = true) (ends : rest.takeWhile wordRest = [])
    (slashless : Slashless (first :: (name ++ rest))) :
    Scans modes modes (first :: (name ++ rest)) rest [classify (first :: name)] := by
  have taken : (name ++ rest).takeWhile wordRest = name := by
    rw [List.takeWhile_append_of_pos word, ends, List.append_nil]
  have left : (name ++ rest).dropWhile wordRest = rest := by
    have whole := List.takeWhile_append_dropWhile (p := wordRest) (l := rest)
    rw [List.dropWhile_append_of_pos word]
    rwa [ends, List.nil_append] at whole
  have notBlank : ¬ isBlank first = true := by
    intro blank
    have rest := wordRest_of_wordStart start
    rw [blank_not_word blank] at rest
    cases rest
  have notNull : first ≠ nul := by
    rintro rfl
    exact absurd start (by decide)
  have notComment : first ≠ '#' := by
    rintro rfl
    exact absurd start (by decide)
  apply Scans.of_next
  rw [next_of_code code, nextCode, if_neg notBlank, if_neg notNull, if_neg notComment, slashless.startsPath, taken, left,
    if_neg Bool.false_ne_true, if_pos start]

omit code in
theorem nextCode_run {first : Char} {run : List Char} (characters : ∀ character ∈ first :: run, pathOrSlash character = true)
    (ends : rest.takeWhile pathOrSlash = []) (starts : startsPath (first :: run) = true) :
    nextCode modes (first :: (run ++ rest)) =
      if [] ∈ pathNames (first :: run) then none else some ([.path (first :: run)], modes, rest) := by
  have taken : pathRun (first :: (run ++ rest)) = first :: run := by
    rw [pathRun, ← List.cons_append, List.takeWhile_append_of_pos characters, ends, List.append_nil]
  have left : (first :: (run ++ rest)).dropWhile pathOrSlash = rest := by
    have whole := List.takeWhile_append_dropWhile (p := pathOrSlash) (l := rest)
    rw [← List.cons_append, List.dropWhile_append_of_pos characters]
    rwa [ends, List.nil_append] at whole
  have own := characters first List.mem_cons_self
  have notBlank : ¬ isBlank first = true := by
    intro blank
    rw [blank_not_path blank] at own
    cases own
  have notNull : first ≠ nul := by
    rintro rfl
    exact absurd own (by decide)
  have notComment : first ≠ '#' := by
    rintro rfl
    exact absurd own (by decide)
  rw [nextCode, if_neg notBlank, if_neg notNull, if_neg notComment, taken, left, if_pos starts]

def stringTokens (content : List Char) : List Token :=
  .quote :: ((if content = [] then [] else [.part content]) ++ [.quote])

theorem scans_string {content : List Char} (plain : Plain false content) :
    Scans modes modes ('"' :: (content ++ '"' :: rest)) rest (stringTokens content) := by
  have noPath := (slashless_of_not_path (content ++ '"' :: rest) (by decide : pathOrSlash '"' = false)).startsPath
  have opens : Scans modes (.string :: modes) ('"' :: (content ++ '"' :: rest)) (content ++ '"' :: rest) [.quote] := by
    apply Scans.of_next
    rw [next_of_code code, nextCode, noPath]
    rfl
  have closes : Scans (.string :: modes) modes ('"' :: rest) rest [.quote] := .of_next rfl
  refine opens.trans (Scans.trans ?_ closes)
  cases content with
  | nil => exact .refl _ _
  | cons character content =>
    obtain ⟨⟨quote, -⟩, dollar⟩ := plain_cons_iff.mp plain
    have still : ¬ (character = '$' ∧ (content ++ '"' :: rest).head? = some '{') := by
      rintro ⟨rfl, brace⟩
      rw [if_pos rfl] at dollar
      cases content with
      | nil => cases brace
      | cons => exact dollar.1 ⟨rfl, brace⟩
    have whole := readString_quote plain rest
    rw [List.cons_append] at whole ⊢
    have moves : '"' :: rest ≠ character :: (content ++ '"' :: rest) := by
      intro same
      have length := congrArg List.length same
      simp only [List.length_cons, List.length_append] at length
      omega
    apply Scans.of_next
    rw [next, nextString, if_neg quote, if_neg still, whole, if_neg moves, if_neg (List.cons_ne_nil character content)]

end Steps

end EkaCI.NixSyntax
