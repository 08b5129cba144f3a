import EkaCI.Nix.Lexer

/-! Nix expressions and the tokens that they are written with. An expression is a whole or
a part of a larger one by its level: a function reaches as far as it can, and a selection
binds closest. Expressions keep their parentheses. -/

namespace EkaCI.NixSyntax

mutual

inductive Expr where
  | var (name : List Char)
  | path (text : List Char)
  | parens (inner : Expr)
  | attrs (bindings : Bindings)
  | select (set : Expr) (names : List (List Char))
  | selectOr (set : Expr) (names : List (List Char)) (default : Expr)
  | apply (function argument : Expr)
  | not (inner : Expr)
  | ifThenElse (condition yes no : Expr)
  | letIn (bindings : Bindings) (body : Expr)
  | function (parameter : List Char) (body : Expr)

/-- The attributes of a set or the variables of a `let`. -/
inductive Bindings where
  | nil
  | cons (name : List Char) (value : Expr) (rest : Bindings)

end

def simpleLevel : Nat := 4

def selectLevel : Nat := 3

def applyLevel : Nat := 2

def operatorLevel : Nat := 1

def functionLevel : Nat := 0

def Expr.level : Expr → Nat
  | .var _ | .path _ | .parens _ | .attrs _ => simpleLevel
  | .select _ _ | .selectOr _ _ _ => selectLevel
  | .apply _ _ => applyLevel
  | .not _ => operatorLevel
  | .ifThenElse _ _ _ | .letIn _ _ | .function _ _ => functionLevel

/-- The name of an attribute: a word, the one keyword that may be a name, or a string
without an interpolation. -/
inductive Attr : List Token → List Char → Prop
  | word (name : List Char) : Attr [.word name] name
  | or (name : List Char) (free : name = "or".toList) : Attr [.keyword name] name
  | string (name : List Char) : Attr (stringTokens name) name

inductive AttrPath : List Token → List (List Char) → Prop
  | one {tokens : List Token} {name : List Char} (attr : Attr tokens name) : AttrPath tokens [name]
  | dot {tokens others : List Token} {name : List Char} {names : List (List Char)} (attr : Attr tokens name)
      (path : AttrPath others names) : AttrPath (tokens ++ .symbol '.' :: others) (name :: names)

mutual

/-- The tokens are an expression of the level or of a closer one. -/
inductive Derives : Nat → List Token → Expr → Prop
  | var {level : Nat} (low : level ≤ simpleLevel) (name : List Char) : Derives level [.word name] (.var name)
  | path {level : Nat} (low : level ≤ simpleLevel) (text : List Char) : Derives level [.path text] (.path text)
  | parens {level : Nat} {tokens : List Token} {inner : Expr} (low : level ≤ simpleLevel)
      (inside : Derives functionLevel tokens inner) :
      Derives level (.symbol '(' :: (tokens ++ [.symbol ')'])) (.parens inner)
  | attrs {level : Nat} {tokens : List Token} {bindings : Bindings} (low : level ≤ simpleLevel)
      (inside : Binds tokens bindings) : Derives level (.symbol '{' :: (tokens ++ [.symbol '}'])) (.attrs bindings)
  | select {level : Nat} {tokens names : List Token} {set : Expr} {path : List (List Char)} (low : level ≤ selectLevel)
      (base : Derives simpleLevel tokens set) (attrs : AttrPath names path) :
      Derives level (tokens ++ .symbol '.' :: names) (.select set path)
  | selectOr {level : Nat} {tokens names others : List Token} {set default : Expr} {path : List (List Char)}
      (low : level ≤ selectLevel) (base : Derives simpleLevel tokens set) (attrs : AttrPath names path)
      (otherwise : Derives selectLevel others default) :
      Derives level (tokens ++ .symbol '.' :: (names ++ .keyword "or".toList :: others)) (.selectOr set path default)
  | apply {level : Nat} {tokens others : List Token} {function argument : Expr} (low : level ≤ applyLevel)
      (called : Derives applyLevel tokens function) (given : Derives selectLevel others argument) :
      Derives level (tokens ++ others) (.apply function argument)
  | not {level : Nat} {tokens : List Token} {inner : Expr} (low : level ≤ operatorLevel)
      (inside : Derives operatorLevel tokens inner) : Derives level (.symbol '!' :: tokens) (.not inner)
  | ifThenElse {level : Nat} {first second third : List Token} {condition yes no : Expr} (low : level ≤ functionLevel)
      (test : Derives functionLevel first condition) (holds : Derives functionLevel second yes)
      (fails : Derives functionLevel third no) :
      Derives level (.keyword "if".toList :: (first ++ .keyword "then".toList :: (second ++
        .keyword "else".toList :: third))) (.ifThenElse condition yes no)
  | letIn {level : Nat} {tokens others : List Token} {bindings : Bindings} {body : Expr} (low : level ≤ functionLevel)
      (bound : Binds tokens bindings) (inside : Derives functionLevel others body) :
      Derives level (.keyword "let".toList :: (tokens ++ .keyword "in".toList :: others)) (.letIn bindings body)
  | function {level : Nat} {tokens : List Token} {body : Expr} (low : level ≤ functionLevel) (parameter : List Char)
      (inside : Derives functionLevel tokens body) :
      Derives level (.word parameter :: .symbol ':' :: tokens) (.function parameter body)

inductive Binds : List Token → Bindings → Prop
  | nil : Binds [] .nil
  | cons {first second third : List Token} {name : List Char} {value : Expr} {rest : Bindings} (attr : Attr first name)
      (bound : Derives functionLevel second value) (left : Binds third rest) :
      Binds (first ++ .symbol '=' :: (second ++ .symbol ';' :: third)) (.cons name value rest)

end

def dotted (names : List (List Char)) : List Token := names.flatMap fun name => [.symbol '.', .word name]

mutual

/-- An expression as it is written, with every name as a word. -/
def Expr.tokens : Expr → List Token
  | .var name => [.word name]
  | .path text => [.path text]
  | .parens inner => .symbol '(' :: (inner.tokens ++ [.symbol ')'])
  | .attrs bindings => .symbol '{' :: (bindings.tokens ++ [.symbol '}'])
  | .select set names => set.tokens ++ dotted names
  | .selectOr set names default => set.tokens ++ (dotted names ++ .keyword "or".toList :: default.tokens)
  | .apply function argument => function.tokens ++ argument.tokens
  | .not inner => .symbol '!' :: inner.tokens
  | .ifThenElse condition yes no =>
    .keyword "if".toList :: (condition.tokens ++ .keyword "then".toList :: (yes.tokens ++
      .keyword "else".toList :: no.tokens))
  | .letIn bindings body => .keyword "let".toList :: (bindings.tokens ++ .keyword "in".toList :: body.tokens)
  | .function parameter body => .word parameter :: .symbol ':' :: body.tokens

def Bindings.tokens : Bindings → List Token
  | .nil => []
  | .cons name value rest => .word name :: .symbol '=' :: (value.tokens ++ .symbol ';' :: rest.tokens)

end

mutual

/-- Every part is written at a level that its place allows. -/
def Expr.fits : Expr → Bool
  | .var _ | .path _ => true
  | .parens inner => inner.fits
  | .attrs bindings => bindings.fits
  | .select set names => selectLevel < set.level && set.fits && names ≠ []
  | .selectOr set names default =>
    selectLevel < set.level && set.fits && names ≠ [] && selectLevel ≤ default.level && default.fits
  | .apply function argument =>
    applyLevel ≤ function.level && function.fits && selectLevel ≤ argument.level && argument.fits
  | .not inner => operatorLevel ≤ inner.level && inner.fits
  | .ifThenElse condition yes no => condition.fits && yes.fits && no.fits
  | .letIn bindings body => bindings.fits && body.fits
  | .function _ body => body.fits

def Bindings.fits : Bindings → Bool
  | .nil => true
  | .cons _ value rest => value.fits && rest.fits

end

theorem dotted_attrPath {names : List (List Char)} (nonempty : names ≠ []) :
    ∃ tokens, dotted names = .symbol '.' :: tokens ∧ AttrPath tokens names := by
  induction names with
  | nil => exact absurd rfl nonempty
  | cons name names ih =>
    cases names with
    | nil => exact ⟨[.word name], rfl, .one (.word name)⟩
    | cons second names =>
      obtain ⟨tokens, same, path⟩ := ih (List.cons_ne_nil second names)
      refine ⟨.word name :: .symbol '.' :: tokens, ?_, .dot (.word name) path⟩
      rw [← same]
      rfl

mutual

theorem derives_tokens (expr : Expr) (fits : expr.fits = true) {level : Nat} (low : level ≤ expr.level) :
    Derives level expr.tokens expr := by
  match expr with
  | .var name => exact .var low name
  | .path text => exact .path low text
  | .parens inner => exact .parens low (derives_tokens inner fits (Nat.zero_le _))
  | .attrs bindings => exact .attrs low (binds_tokens bindings fits)
  | .select set names =>
    simp only [Expr.fits, Bool.and_eq_true, decide_eq_true_eq] at fits
    obtain ⟨tokens, same, path⟩ := dotted_attrPath fits.2
    rw [Expr.tokens, same]
    exact .select low (derives_tokens set fits.1.2 fits.1.1) path
  | .selectOr set names default =>
    simp only [Expr.fits, Bool.and_eq_true, decide_eq_true_eq] at fits
    obtain ⟨⟨⟨⟨closest, inside⟩, nonempty⟩, close⟩, otherwise⟩ := fits
    obtain ⟨tokens, same, path⟩ := dotted_attrPath nonempty
    rw [Expr.tokens, same]
    exact .selectOr low (derives_tokens set inside closest) path (derives_tokens default otherwise close)
  | .apply function argument =>
    simp only [Expr.fits, Bool.and_eq_true, decide_eq_true_eq] at fits
    obtain ⟨⟨⟨near, called⟩, close⟩, given⟩ := fits
    exact .apply low (derives_tokens function called near) (derives_tokens argument given close)
  | .not inner =>
    simp only [Expr.fits, Bool.and_eq_true, decide_eq_true_eq] at fits
    exact .not low (derives_tokens inner fits.2 fits.1)
  | .ifThenElse condition yes no =>
    simp only [Expr.fits, Bool.and_eq_true] at fits
    exact .ifThenElse low (derives_tokens condition fits.1.1 (Nat.zero_le _))
      (derives_tokens yes fits.1.2 (Nat.zero_le _)) (derives_tokens no fits.2 (Nat.zero_le _))
  | .letIn bindings body =>
    simp only [Expr.fits, Bool.and_eq_true] at fits
    exact .letIn low (binds_tokens bindings fits.1) (derives_tokens body fits.2 (Nat.zero_le _))
  | .function parameter body => exact .function low parameter (derives_tokens body fits (Nat.zero_le _))

theorem binds_tokens (bindings : Bindings) (fits : bindings.fits = true) : Binds bindings.tokens bindings := by
  match bindings with
  | .nil => exact .nil
  | .cons name value rest =>
    simp only [Bindings.fits, Bool.and_eq_true] at fits
    exact .cons (.word name) (derives_tokens value fits.1 (Nat.zero_le _)) (binds_tokens rest fits.2)

end

section Unique

theorem Attr.unique {first second left right : List Token} {name : List Char} (attr : Attr first name)
    (again : Attr second name) (same : first ++ left = second ++ right) : first = second ∧ left = right := by
  have equal : first = second := by
    cases attr with
    | word =>
      cases again with
      | word => rfl
      | or => cases same
      | string => cases same
    | or =>
      cases again with
      | word => cases same
      | or => rfl
      | string => cases same
    | string =>
      cases again with
      | word => cases same
      | or => cases same
      | string => rfl
  subst equal
  exact ⟨rfl, List.append_cancel_left same⟩

theorem AttrPath.ne_nil {tokens : List Token} {names : List (List Char)} (path : AttrPath tokens names) : names ≠ [] := by
  cases path with
  | one | dot => exact List.cons_ne_nil _ _

theorem AttrPath.unique {first second left right : List Token} {names : List (List Char)} (path : AttrPath first names)
    (again : AttrPath second names) (same : first ++ left = second ++ right) : first = second ∧ left = right := by
  induction path generalizing second with
  | one attr =>
    cases again with
    | one other => exact attr.unique other same
    | dot other rest => exact absurd rfl rest.ne_nil
  | dot attr path ih =>
    cases again with
    | one other => exact absurd rfl path.ne_nil
    | dot other rest =>
      simp only [List.append_assoc, List.cons_append] at same
      obtain ⟨rfl, tail⟩ := attr.unique other same
      obtain ⟨rfl, rfl⟩ := ih rest (List.cons.inj tail).2
      exact ⟨rfl, rfl⟩

mutual

theorem Derives.unique (expr : Expr) {level other : Nat} {first second left right : List Token}
    (derives : Derives level first expr) (again : Derives other second expr) (same : first ++ left = second ++ right) :
    first = second ∧ left = right := by
  match expr with
  | .var name =>
    cases derives
    cases again
    exact ⟨rfl, (List.cons.inj same).2⟩
  | .path text =>
    cases derives
    cases again
    exact ⟨rfl, (List.cons.inj same).2⟩
  | .parens inner =>
    cases derives with
    | parens _ inside =>
      cases again with
      | parens _ inside' =>
        simp only [List.append_assoc, List.cons_append, List.cons.injEq, true_and] at same
        obtain ⟨rfl, closed⟩ := Derives.unique inner inside inside' same
        exact ⟨rfl, (List.cons.inj closed).2⟩
  | .attrs bindings =>
    cases derives with
    | attrs _ inside =>
      cases again with
      | attrs _ inside' =>
        simp only [List.append_assoc, List.cons_append, List.cons.injEq, true_and] at same
        obtain ⟨rfl, closed⟩ := Binds.unique bindings inside inside' same
        exact ⟨rfl, (List.cons.inj closed).2⟩
  | .select set names =>
    cases derives with
    | select _ base attrs =>
      cases again with
      | select _ base' attrs' =>
        simp only [List.append_assoc, List.cons_append] at same
        obtain ⟨rfl, dot⟩ := Derives.unique set base base' same
        obtain ⟨rfl, rfl⟩ := attrs.unique attrs' (List.cons.inj dot).2
        exact ⟨rfl, rfl⟩
  | .selectOr set names default =>
    cases derives with
    | selectOr _ base attrs otherwise =>
      cases again with
      | selectOr _ base' attrs' otherwise' =>
        simp only [List.append_assoc, List.cons_append] at same
        obtain ⟨rfl, dot⟩ := Derives.unique set base base' same
        obtain ⟨rfl, or⟩ := attrs.unique attrs' (List.cons.inj dot).2
        obtain ⟨rfl, rfl⟩ := Derives.unique default otherwise otherwise' (List.cons.inj or).2
        exact ⟨rfl, rfl⟩
  | .apply function argument =>
    cases derives with
    | apply _ called given =>
      cases again with
      | apply _ called' given' =>
        simp only [List.append_assoc] at same
        obtain ⟨rfl, rest⟩ := Derives.unique function called called' same
        obtain ⟨rfl, rfl⟩ := Derives.unique argument given given' rest
        exact ⟨rfl, rfl⟩
  | .not inner =>
    cases derives with
    | not _ inside =>
      cases again with
      | not _ inside' =>
        obtain ⟨rfl, rfl⟩ := Derives.unique inner inside inside' (List.cons.inj same).2
        exact ⟨rfl, rfl⟩
  | .ifThenElse condition yes no =>
    cases derives with
    | ifThenElse _ test holds fails =>
      cases again with
      | ifThenElse _ test' holds' fails' =>
        simp only [List.append_assoc, List.cons_append, List.cons.injEq, true_and] at same
        obtain ⟨rfl, atThen⟩ := Derives.unique condition test test' same
        obtain ⟨rfl, atElse⟩ := Derives.unique yes holds holds' (List.cons.inj atThen).2
        obtain ⟨rfl, rfl⟩ := Derives.unique no fails fails' (List.cons.inj atElse).2
        exact ⟨rfl, rfl⟩
  | .letIn bindings body =>
    cases derives with
    | letIn _ bound inside =>
      cases again with
      | letIn _ bound' inside' =>
        simp only [List.append_assoc, List.cons_append, List.cons.injEq, true_and] at same
        obtain ⟨rfl, atIn⟩ := Binds.unique bindings bound bound' same
        obtain ⟨rfl, rfl⟩ := Derives.unique body inside inside' (List.cons.inj atIn).2
        exact ⟨rfl, rfl⟩
  | .function parameter body =>
    cases derives with
    | function _ _ inside =>
      cases again with
      | function _ _ inside' =>
        obtain ⟨rfl, rfl⟩ := Derives.unique body inside inside' (List.cons.inj (List.cons.inj same).2).2
        exact ⟨rfl, rfl⟩

theorem Binds.unique (bindings : Bindings) {first second left right : List Token} (binds : Binds first bindings)
    (again : Binds second bindings) (same : first ++ left = second ++ right) : first = second ∧ left = right := by
  match bindings with
  | .nil =>
    cases binds
    cases again
    exact ⟨rfl, same⟩
  | .cons name value rest =>
    cases binds with
    | cons attr bound more =>
      cases again with
      | cons attr' bound' more' =>
        simp only [List.append_assoc, List.cons_append] at same
        obtain ⟨rfl, equals⟩ := attr.unique attr' same
        obtain ⟨rfl, ends⟩ := Derives.unique value bound bound' (List.cons.inj equals).2
        obtain ⟨rfl, rfl⟩ := Binds.unique rest more more' (List.cons.inj ends).2
        exact ⟨rfl, rfl⟩

end

end Unique

end EkaCI.NixSyntax
