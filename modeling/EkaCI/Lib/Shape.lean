import EkaCI.Lib.Json
import EkaCI.Lib.Keyed
import Mathlib.Data.List.Sort
import Mathlib.Data.String.Basic

/-! Shapes of data, as a derived deserialiser reads them: it passes over the keys that it does not
know. Which keys those are can be seen from what is serialised again, as far as objects are read
as objects. -/

namespace EkaCI.Lib

namespace Json

/-- Of a key that occurs more than once the last value counts. -/
def last (key : String) (members : Members) : Option Json := (findKey Prod.fst members.reverse key).map Prod.snd

/-- The members of a map that is kept in the order of its keys. -/
def inOrder (members : Members) : Members :=
  (lastOfKey Prod.fst members).insertionSort fun first second => first.1 ≤ second.1

mutual

/-- A document as it is held in maps. -/
def held : Json → Json
  | .obj members => .obj (inOrder (heldMembers members))
  | .arr items => .arr (heldItems items)
  | .null => .null
  | .bool value => .bool value
  | .int value => .int value
  | .float value => .float value
  | .str value => .str value

def heldMembers : List (String × Json) → List (String × Json)
  | [] => []
  | (key, value) :: rest => (key, held value) :: heldMembers rest

def heldItems : List Json → List Json
  | [] => []
  | item :: rest => held item :: heldItems rest

end

mutual

/-- A document without some of its keys. -/
def erase (dead : List String → Bool) : Json → Json
  | .obj members => .obj (eraseMembers dead members)
  | .null => .null
  | .bool value => .bool value
  | .int value => .int value
  | .float value => .float value
  | .str value => .str value
  | .arr items => .arr items

def eraseMembers (dead : List String → Bool) : List (String × Json) → List (String × Json)
  | [] => []
  | (key, value) :: rest =>
    if dead [key] then eraseMembers dead rest
    else (key, erase (fun path => dead (key :: path)) value) :: eraseMembers dead rest

end

/-- The value of a key in what is serialised, under its own name or under the one it stands for. -/
def known (canonical : String → Option String) (members : Members) (key : String) : Option Json :=
  (last key members).or ((canonical key).bind fun name => last name members)

mutual

/-- The keys of a document, as it is held, that what is serialised again does not have. -/
def collectUnknown (canonical : String → Option String) : Json → Json → List (List String)
  | .obj members, .obj output => collectMembers canonical output members
  | _, _ => []

def collectMembers (canonical : String → Option String) (output : Members) : List (String × Json) → List (List String)
  | [] => []
  | (key, value) :: rest =>
    (match known canonical output key with
      | none => [[key]]
      | some inner => (collectUnknown canonical value inner).map (key :: ·)) ++ collectMembers canonical output rest

end

inductive PathStep where
  | key (name : String)
  | element (index : Nat)
  deriving DecidableEq

abbrev Path := List PathStep

def keys (path : List String) : Path := path.map .key

mutual

/-- The places of all keys of a document. -/
def keyPaths : Json → List Path
  | .obj members => memberPaths members
  | .arr items => itemPaths 0 items
  | .null | .bool _ | .int _ | .float _ | .str _ => []

def memberPaths : List (String × Json) → List Path
  | [] => []
  | (key, value) :: rest => [.key key] :: (keyPaths value).map (.key key :: ·) ++ memberPaths rest

def itemPaths (index : Nat) : List Json → List Path
  | [] => []
  | item :: rest => (keyPaths item).map (.element index :: ·) ++ itemPaths (index + 1) rest

end

/-- The last value of each key on the way is an object that has the next one. -/
def Reachable : Json → List String → Prop
  | _, [] => True
  | json, key :: rest => ∃ value, (getMembers json).bind (last key) = some value ∧ Reachable value rest

theorem last_cons (key name : String) (value : Json) (rest : Members) :
    last key ((name, value) :: rest) = (last key rest).or (if name = key then some value else none) := by
  rw [last, List.reverse_cons, findKey_append, last, findKey_cons]
  cases findKey Prod.fst rest.reverse key with
  | some member => rfl
  | none =>
    by_cases same : name = key
    · rw [if_pos same, if_pos same]
      rfl
    · rw [if_neg same, if_neg same]
      rfl

theorem last_eq_none (absent : ∀ member ∈ members, member.1 ≠ key) : last key members = none := by
  induction members with
  | nil => rfl
  | cons member rest ih =>
    obtain ⟨name, value⟩ := member
    rw [last_cons, ih fun other inside => absent other (List.mem_cons_of_mem _ inside),
      if_neg (absent (name, value) List.mem_cons_self)]
    rfl

theorem mem_of_last {members : Members} (found : last key members = some value) : (key, value) ∈ members := by
  obtain ⟨member, inside, rfl⟩ := Option.map_eq_some_iff.mp found
  rw [← key_of_findKey inside]
  exact List.mem_reverse.mp (List.mem_of_find?_eq_some inside)

theorem last_of_mem {members : Members} (distinct : (members.map Prod.fst).Nodup) (member : (key, value) ∈ members) :
    last key members = some value := by
  induction members with
  | nil => cases member
  | cons first rest ih =>
    obtain ⟨name, other⟩ := first
    rw [List.map_cons, List.nodup_cons] at distinct
    rw [last_cons]
    cases member with
    | head =>
      have absent : last key rest = none :=
        last_eq_none fun other inside same => distinct.1 (List.mem_map.mpr ⟨other, inside, same⟩)
      rw [absent, if_pos rfl]
      rfl
    | tail _ inside => rw [ih distinct.2 inside, Option.some_or]

theorem last_eraseMembers (dead : List String → Bool) (key : String) (members : Members) :
    last key (eraseMembers dead members) =
      if dead [key] then none else (last key members).map (erase fun path => dead (key :: path)) := by
  induction members with
  | nil =>
    rw [eraseMembers]
    split <;> rfl
  | cons member rest ih =>
    obtain ⟨name, value⟩ := member
    rw [eraseMembers, last_cons]
    by_cases same : name = key
    · subst same
      split
      next erased => rw [ih, if_pos erased]
      next stays =>
        rw [last_cons, ih, if_neg stays, if_pos rfl, if_pos rfl]
        cases last name rest <;> rfl
    · split
      next => rw [ih, Option.or_none]
      next =>
        rw [last_cons, ih, if_neg same, Option.or_none, Option.or_none]

/-- A key that is left is a key of the document, and not one of those taken away. -/
theorem reachable_erase {dead : List String → Bool} {json : Json} {path : List String} (some_ : path ≠ [])
    (reachable : Reachable (erase dead json) path) : Reachable json path ∧ dead path = false := by
  induction path generalizing dead json with
  | nil => exact absurd rfl some_
  | cons key rest ih =>
    obtain ⟨value, found, inner⟩ := reachable
    cases json with
    | obj members =>
      have here : last key (eraseMembers dead members) = some value := by rw [erase] at found; exact found
      rw [last_eraseMembers] at here
      split at here
      next => cases here
      next stays =>
        obtain ⟨before, was, rfl⟩ := Option.map_eq_some_iff.mp here
        cases rest with
        | nil => exact ⟨⟨before, was, trivial⟩, Bool.eq_false_iff.mpr stays⟩
        | cons next others =>
          obtain ⟨reaches, kept⟩ := ih (List.cons_ne_nil _ _) inner
          exact ⟨⟨before, was, reaches⟩, kept⟩
    | _ => rw [erase] at found; cases found

theorem mem_inOrder {members : Members} : (key, value) ∈ inOrder members ↔ last key members = some value := by
  rw [inOrder, (List.perm_insertionSort _ _).mem_iff]
  have stands := @findKey_eq_some_iff _ _ _ Prod.fst _ key (nodup_lastOfKey members) (key, value)
  rw [and_iff_left rfl, findKey_lastOfKey] at stands
  rw [← stands, last, Option.map_eq_some_iff]
  constructor
  · exact fun found => ⟨_, found, rfl⟩
  · rintro ⟨member, found, rfl⟩
    rw [found, ← key_of_findKey found]

theorem last_heldMembers (key : String) (members : Members) : last key (heldMembers members) = (last key members).map held := by
  induction members with
  | nil => rfl
  | cons member rest ih =>
    obtain ⟨name, value⟩ := member
    rw [heldMembers, last_cons, last_cons, ih, Option.map_or, apply_ite (Option.map held)]
    rfl

theorem mem_collectMembers {canonical : String → Option String} {output members : Members} {path : List String} :
    path ∈ collectMembers canonical output members ↔ ∃ key value, (key, value) ∈ members ∧
      match known canonical output key with
      | none => path = [key]
      | some inner => ∃ rest ∈ collectUnknown canonical value inner, path = key :: rest := by
  induction members with
  | nil =>
    rw [collectMembers]
    constructor
    · exact fun inside => absurd inside List.not_mem_nil
    · rintro ⟨key, value, found, -⟩
      cases found
  | cons member rest ih =>
    obtain ⟨name, own⟩ := member
    rw [collectMembers, List.mem_append, ih]
    constructor
    · rintro (here | ⟨key, value, found, collected⟩)
      · refine ⟨name, own, List.mem_cons_self, ?_⟩
        split at here
        next => exact List.mem_singleton.mp here
        next =>
          obtain ⟨other, inside, same⟩ := List.mem_map.mp here
          exact ⟨other, inside, same.symm⟩
      · exact ⟨key, value, List.mem_cons_of_mem _ found, collected⟩
    · rintro ⟨key, value, found, collected⟩
      cases found with
      | head =>
        refine .inl ?_
        split at collected
        next =>
          rw [collected]
          exact List.mem_singleton_self _
        next =>
          obtain ⟨other, inside, rfl⟩ := collected
          exact List.mem_map_of_mem inside
      | tail _ found => exact .inr ⟨key, value, found, collected⟩

/-- In a document that is held in maps, the last value of each key is the one that is looked into. -/
theorem mem_collectUnknown_held {canonical : String → Option String} {output members : Members} {path : List String} :
    path ∈ collectUnknown canonical (held (.obj members)) (.obj output) ↔ ∃ key value, last key members = some value ∧
      match known canonical output key with
      | none => path = [key]
      | some inner => ∃ rest ∈ collectUnknown canonical (held value) inner, path = key :: rest := by
  rw [held, collectUnknown, mem_collectMembers]
  constructor
  · rintro ⟨key, value, inside, collected⟩
    rw [mem_inOrder, last_heldMembers] at inside
    obtain ⟨before, found, rfl⟩ := Option.map_eq_some_iff.mp inside
    exact ⟨key, before, found, collected⟩
  · rintro ⟨key, value, found, collected⟩
    refine ⟨key, held value, ?_, collected⟩
    rw [mem_inOrder, last_heldMembers, found]
    rfl

end Json

open Json

/-- What a deserialiser accepts, serialised again, the keys that it passes over, and which
others can be taken away at once so that the same is read. -/
structure Shape where
  read : Json → Option Json
  Unknown : Path → Prop
  Spares : (List String → Bool) → Json → Prop

namespace Shape

/-- The keys that are passed over do not matter, and those on a way of objects are the ones that
are missing from what is serialised again. -/
structure Lawful (canonical : String → Option String) (shape : Shape) : Prop where
  root : ¬ shape.Unknown []
  erased : ∀ dead json, (∀ path, dead path = true → shape.Unknown (keys path)) →
    shape.read (erase dead json) = shape.read json
  kept : ∀ dead json output, shape.read json = some output →
    (shape.read (erase dead json) = some output ↔ shape.Spares dead json)
  collected : ∀ json output path, shape.read json = some output →
    (path ∈ collectUnknown canonical (held json) output ↔ shape.Unknown (keys path) ∧ Reachable json path)

variable {canonical : String → Option String} {shape : Shape}

/-- What is not an object has no keys to report. -/
theorem collected_of_not_object (root : ¬ shape.Unknown []) {json : Json} (other : getMembers json = none) (output : Json)
    (path : List String) :
    path ∈ collectUnknown canonical (held json) output ↔ shape.Unknown (keys path) ∧ Reachable json path := by
  have nothing : collectUnknown canonical (held json) output = [] := by
    cases json with
    | obj => cases other
    | _ => rw [held, collectUnknown]; exact nofun
  rw [nothing]
  constructor
  · exact fun inside => absurd inside List.not_mem_nil
  · rintro ⟨unknown, reachable⟩
    cases path with
    | nil => exact absurd unknown root
    | cons key rest =>
      obtain ⟨value, found, -⟩ := reachable
      rw [other] at found
      cases found

def leaf (read : Json → Option Json) : Shape := ⟨read, fun _ => False, fun _ _ => True⟩

theorem lawful_leaf {read : Json → Option Json} (plain : ∀ members, read (.obj members) = none) :
    (leaf read).Lawful canonical where
  root := id
  erased dead json _ := by
    cases json with
    | obj members =>
      rw [erase]
      exact (plain _).trans (plain _).symm
    | _ => rw [erase]
  kept dead json output accepted := by
    cases json with
    | obj members => exact absurd ((plain members).symm.trans accepted) nofun
    | _ => rw [erase]; exact iff_of_true accepted trivial
  collected json output path accepted := by
    refine collected_of_not_object id ?_ output path
    cases json with
    | obj members => exact absurd ((plain members).symm.trans accepted) nofun
    | _ => rfl

def readOptional (shape : Shape) : Json → Option Json
  | .null => some .null
  | json => shape.read json

def sparesOptional (shape : Shape) (dead : List String → Bool) : Json → Prop
  | .null => True
  | json => shape.Spares dead json

def optional (shape : Shape) : Shape := ⟨shape.readOptional, shape.Unknown, shape.sparesOptional⟩

theorem lawful_optional (lawful : shape.Lawful canonical) : shape.optional.Lawful canonical where
  root := lawful.root
  erased dead json unknown := by
    cases json with
    | null => rw [erase]
    | obj members =>
      have same := lawful.erased dead (.obj members) unknown
      rw [erase] at same ⊢
      exact same
    | _ => rw [erase]
  kept dead json output accepted := by
    cases json with
    | null => rw [erase]; exact iff_of_true accepted trivial
    | obj members =>
      have same := lawful.kept dead (.obj members) output accepted
      rw [erase] at same ⊢
      exact same
    | _ =>
      have same := lawful.kept dead _ output accepted
      rw [erase] at same ⊢
      exact same
  collected json output path accepted := by
    cases json with
    | null => exact collected_of_not_object lawful.root rfl output path
    | _ => exact lawful.collected _ output path accepted

/-- Of a key that occurs more than once the last value stays. -/
def keepLast : Members → Members
  | [] => []
  | (key, value) :: rest => if (last key rest).isSome then keepLast rest else (key, value) :: keepLast rest

theorem last_keepLast (key : String) (members : Members) : last key (keepLast members) = last key members := by
  induction members with
  | nil => rfl
  | cons member rest ih =>
    obtain ⟨name, value⟩ := member
    rw [keepLast, last_cons]
    split
    next later =>
      rw [ih]
      by_cases same : name = key
      · subst same
        rw [Option.or_of_isSome later]
      · rw [if_neg same, Option.or_none]
    next => rw [last_cons, ih]

/-- Every value is read, also one that does not stay. -/
def readEntries (shape : Shape) : Members → Option Members
  | [] => some []
  | (key, value) :: rest =>
    (shape.read value).bind fun output => (readEntries shape rest).map ((key, output) :: ·)

def readMap (shape : Shape) : Json → Option Json
  | .obj members => (shape.readEntries members).map fun output => .obj (keepLast output)
  | _ => none

def UnknownInMap (shape : Shape) : Path → Prop
  | .key _ :: rest => shape.Unknown rest
  | _ => False

/-- An entry that does not stay has only to be accepted. -/
def SparesEntries (shape : Shape) (dead : List String → Bool) : Members → Prop
  | [] => True
  | (key, value) :: rest =>
    dead [key] = false ∧
      (if (last key rest).isSome then (shape.read (erase (fun path => dead (key :: path)) value)).isSome = true
        else shape.Spares (fun path => dead (key :: path)) value) ∧
      SparesEntries shape dead rest

def SparesInMap (shape : Shape) (dead : List String → Bool) : Json → Prop
  | .obj members => shape.SparesEntries dead members
  | _ => True

def map (shape : Shape) : Shape := ⟨shape.readMap, shape.UnknownInMap, shape.SparesInMap⟩

theorem last_readEntries {members output : Members} (accepted : shape.readEntries members = some output) (key : String) :
    match last key members with
    | none => last key output = none
    | some value => ∃ inner, shape.read value = some inner ∧ last key output = some inner := by
  induction members generalizing output with
  | nil =>
    cases accepted
    rfl
  | cons member rest ih =>
    obtain ⟨name, value⟩ := member
    obtain ⟨first, read, others⟩ := Option.bind_eq_some_iff.mp accepted
    obtain ⟨entries, read_rest, rfl⟩ := Option.map_eq_some_iff.mp others
    have earlier := ih read_rest
    rw [last_cons, last_cons]
    cases later : last key rest with
    | some final =>
      rw [later] at earlier
      obtain ⟨inner, reads, known⟩ := earlier
      exact ⟨inner, reads, by rw [known, Option.some_or]⟩
    | none =>
      rw [later] at earlier
      rw [earlier, Option.none_or, Option.none_or]
      by_cases same : name = key
      · rw [if_pos same, if_pos same]
        exact ⟨first, read, rfl⟩
      · rw [if_neg same, if_neg same]

theorem readEntries_eraseMembers {dead : List String → Bool} (kept : ∀ key, dead [key] = false)
    (same : ∀ key value, shape.read (erase (fun path => dead (key :: path)) value) = shape.read value) (members : Members) :
    shape.readEntries (eraseMembers dead members) = shape.readEntries members := by
  induction members with
  | nil => rw [eraseMembers]
  | cons member rest ih =>
    obtain ⟨name, value⟩ := member
    rw [eraseMembers, if_neg (Bool.eq_false_iff.mp (kept name)), readEntries, readEntries, same, ih]

theorem last_isSome_readEntries {members output : Members} (accepted : shape.readEntries members = some output)
    (key : String) : (last key output).isSome = (last key members).isSome := by
  have step := last_readEntries accepted key
  cases found : last key members with
  | none =>
    rw [found] at step
    rw [step]
  | some value =>
    rw [found] at step
    obtain ⟨inner, -, known⟩ := step
    rw [known, Option.isSome_some, Option.isSome_some]

/-- The entries stay what they are exactly if none goes, and each that stays is read as before. -/
theorem readEntries_kept (lawful : shape.Lawful canonical) {dead : List String → Bool} {members output : Members}
    (accepted : shape.readEntries members = some output) :
    (shape.readEntries (eraseMembers dead members)).map keepLast = some (keepLast output) ↔
      shape.SparesEntries dead members := by
  induction members generalizing output with
  | nil =>
    cases accepted
    exact iff_of_true rfl trivial
  | cons member rest ih =>
    obtain ⟨key, value⟩ := member
    have whole := accepted
    obtain ⟨inner, read, others⟩ := Option.bind_eq_some_iff.mp accepted
    obtain ⟨entries, readRest, rfl⟩ := Option.map_eq_some_iff.mp others
    have ih := ih readRest
    rw [eraseMembers, SparesEntries]
    cases gone : dead [key] with
    | true =>
      refine iff_of_false (fun same => ?_) (fun spares => by cases spares.1)
      rw [if_pos rfl] at same
      obtain ⟨entries', readRest', same⟩ := Option.map_eq_some_iff.mp same
      have there := last_isSome_readEntries whole key
      have absent := last_isSome_readEntries readRest' key
      rw [← last_keepLast, ← same, last_keepLast, absent, last_eraseMembers, if_pos gone, last_cons, if_pos rfl,
        Option.isSome_or] at there
      simp at there
    | false =>
      have later : ∀ {entries' : Members}, shape.readEntries (eraseMembers dead rest) = some entries' →
          (last key entries').isSome = (last key rest).isSome := by
        intro entries' readRest'
        rw [last_isSome_readEntries readRest', last_eraseMembers, if_neg (by simp [gone]), Option.isSome_map]
      rw [if_neg Bool.false_ne_true, and_iff_right rfl, ← ih, readEntries, keepLast, last_isSome_readEntries readRest]
      cases again : (last key rest).isSome with
      | true =>
        rw [if_pos rfl, if_pos rfl]
        cases shape.read (erase (fun path => dead (key :: path)) value) with
        | none => simp
        | some inner' =>
          cases readRest' : shape.readEntries (eraseMembers dead rest) with
          | none => simp
          | some entries' => simp [keepLast, later readRest', again]
      | false =>
        rw [if_neg Bool.false_ne_true, if_neg Bool.false_ne_true, ← lawful.kept _ value inner read]
        cases shape.read (erase (fun path => dead (key :: path)) value) with
        | none => simp
        | some inner' =>
          cases readRest' : shape.readEntries (eraseMembers dead rest) with
          | none => simp
          | some entries' => simp [keepLast, later readRest', again]

theorem lawful_map (lawful : shape.Lawful canonical) : shape.map.Lawful canonical where
  root := id
  erased dead json unknown := by
    cases json with
    | obj members =>
      have kept (key : String) : dead [key] = false := by
        refine Bool.eq_false_iff.mpr fun taken => lawful.root ?_
        exact unknown [key] taken
      have same (key : String) (value : Json) :
          shape.read (erase (fun path => dead (key :: path)) value) = shape.read value :=
        lawful.erased _ value fun path taken => unknown (key :: path) taken
      rw [erase]
      exact congrArg (Option.map _) (readEntries_eraseMembers kept same members)
    | _ => rw [erase]
  kept dead json output accepted := by
    cases json with
    | obj members =>
      obtain ⟨entries, read, rfl⟩ := Option.map_eq_some_iff.mp accepted
      refine Iff.trans ?_ (readEntries_kept lawful read)
      rw [erase]
      cases again : shape.readEntries (eraseMembers dead members) with
      | none => simp [map, readMap, again]
      | some entries' => simp [map, readMap, again]
    | _ => cases accepted
  collected json output path accepted := by
    cases json with
    | obj members =>
      obtain ⟨entries, read, rfl⟩ := Option.map_eq_some_iff.mp accepted
      rw [mem_collectUnknown_held]
      have meaning (key : String) (value : Json) (found : last key members = some value) :
          ∃ inner, shape.read value = some inner ∧ known canonical (keepLast entries) key = some inner := by
        have step := last_readEntries read key
        rw [found] at step
        obtain ⟨inner, reads, here⟩ := step
        exact ⟨inner, reads, by rw [known, last_keepLast, here, Option.some_or]⟩
      constructor
      · rintro ⟨key, value, found, collected⟩
        obtain ⟨inner, reads, known⟩ := meaning key value found
        rw [known] at collected
        obtain ⟨rest, inside, rfl⟩ := collected
        obtain ⟨unknown, reachable⟩ := (lawful.collected value inner rest reads).mp inside
        exact ⟨unknown, value, found, reachable⟩
      · rintro ⟨unknown, reachable⟩
        cases path with
        | nil => exact unknown.elim
        | cons key rest =>
          obtain ⟨value, found, reaches⟩ := reachable
          obtain ⟨inner, reads, known⟩ := meaning key value found
          refine ⟨key, value, found, ?_⟩
          rw [known]
          exact ⟨rest, (lawful.collected value inner rest reads).mpr ⟨unknown, reaches⟩, rfl⟩
    | _ => cases accepted

end Shape

/-- A field of a record, with the value that stands for it when it is left out. -/
structure Field where
  name : String
  aliases : List String
  absent : Option Json
  shape : Shape

def Field.names (field : Field) : List String := field.name :: field.aliases

namespace Shape

def readFields (members : Members) : List Field → Option Members
  | [] => some []
  | field :: rest =>
    (Json.field field.names field.absent field.shape.read members).bind fun value =>
      (readFields members rest).map ((field.name, value) :: ·)

/-- A record that is written as an array. -/
def readItems : List Field → List Json → Option Members
  | [], [] => some []
  | [], _ :: _ => none
  | field :: rest, [] => field.absent.bind fun value => (readItems rest []).map ((field.name, value) :: ·)
  | field :: rest, item :: items =>
    (field.shape.read item).bind fun value => (readItems rest items).map ((field.name, value) :: ·)

def readRecord (fields : List Field) : Json → Option Json
  | .obj members => (readFields members fields).map .obj
  | .arr items => (readItems fields items).map .obj
  | _ => none

def UnknownInRecord (fields : List Field) : Path → Prop
  | [] => False
  | .key name :: rest =>
    (∃ field ∈ fields, name ∈ field.names ∧ field.shape.Unknown rest) ∨
      (∀ field ∈ fields, name ∉ field.names) ∧ rest = []
  | .element index :: rest => ∃ field, fields[index]? = some field ∧ field.shape.Unknown rest

/-- A key of a field can go if the field is read as when it is left out. -/
def SparesMember (dead : List String → Bool) (field : Field) (member : String × Json) : Prop :=
  if dead [member.1] then field.shape.read member.2 = field.absent
  else field.shape.Spares (fun path => dead (member.1 :: path)) member.2

def SparesInRecord (fields : List Field) (dead : List String → Bool) : Json → Prop
  | .obj members => ∀ field ∈ fields, ∀ member ∈ members, member.1 ∈ field.names → SparesMember dead field member
  | _ => True

def record (fields : List Field) : Shape := ⟨readRecord fields, UnknownInRecord fields, SparesInRecord fields⟩

/-- No two fields go under one name, and a name stands for a field exactly if it is an alias of it. -/
structure WellNamed (canonical : String → Option String) (fields : List Field) : Prop where
  distinct : (fields.map Field.name).Nodup
  aliases : ∀ field ∈ fields, ∀ key, key ∈ field.aliases ↔ canonical key = some field.name
  plain : ∀ field ∈ fields, canonical field.name = none

variable {fields : List Field}

theorem names_readFields {members output : Members} (accepted : readFields members fields = some output) :
    output.map Prod.fst = fields.map Field.name := by
  induction fields generalizing output with
  | nil =>
    cases accepted
    rfl
  | cons field rest ih =>
    obtain ⟨value, -, others⟩ := Option.bind_eq_some_iff.mp accepted
    obtain ⟨entries, read, rfl⟩ := Option.map_eq_some_iff.mp others
    rw [List.map_cons, List.map_cons, ih read]

theorem mem_readFields {members output : Members} (accepted : readFields members fields = some output) {field : Field}
    (member : field ∈ fields) : ∃ value, Json.field field.names field.absent field.shape.read members = some value ∧
      (field.name, value) ∈ output := by
  induction fields generalizing output with
  | nil => cases member
  | cons first rest ih =>
    obtain ⟨value, read, others⟩ := Option.bind_eq_some_iff.mp accepted
    obtain ⟨entries, read_rest, rfl⟩ := Option.map_eq_some_iff.mp others
    cases member with
    | head => exact ⟨value, read, List.mem_cons_self⟩
    | tail _ inside =>
      obtain ⟨other, reads, listed⟩ := ih read_rest inside
      exact ⟨other, reads, List.mem_cons_of_mem _ listed⟩

/-- A field that is given is read from the value that is given. -/
theorem read_of_last {names : List String} {absent : Option Json} {read : Json → Option Json} {members : Members}
    {key : String} {value output : Json} (accepted : Json.field names absent read members = some output)
    (found : last key members = some value) (named : key ∈ names) : read value = some output := by
  have member : (key, value) ∈ members.filter (·.1 ∈ names) :=
    List.mem_filter.mpr ⟨mem_of_last found, decide_eq_true named⟩
  rw [Json.field] at accepted
  split at accepted
  next none => rw [none] at member; cases member
  next single =>
    rw [single] at member
    rw [← List.mem_singleton.mp member] at accepted
    exact accepted
  next => cases accepted

theorem known_field (wellNamed : WellNamed canonical fields) {members output : Members}
    (accepted : readFields members fields = some output) {field : Field} (member : field ∈ fields) {key : String}
    (named : key ∈ field.names) : ∃ value, Json.field field.names field.absent field.shape.read members = some value ∧
      known canonical output key = some value := by
  have distinct : (output.map Prod.fst).Nodup := by
    rw [names_readFields accepted]
    exact wellNamed.distinct
  obtain ⟨value, read, listed⟩ := mem_readFields accepted member
  have own := last_of_mem distinct listed
  refine ⟨value, read, ?_⟩
  rw [known]
  cases List.mem_cons.mp named with
  | inl same => rw [same, own, Option.some_or]
  | inr inside =>
    have stands := (wellNamed.aliases field member key).mp inside
    have absent : last key output = none := by
      refine last_eq_none fun entry inside same => ?_
      have listed : key ∈ fields.map Field.name := by
        rw [← names_readFields accepted, ← same]
        exact List.mem_map_of_mem inside
      obtain ⟨other, member, rfl⟩ := List.mem_map.mp listed
      rw [wellNamed.plain other member] at stands
      cases stands
    rw [absent, stands, Option.none_or, Option.bind_some, own]

theorem known_eq_none (wellNamed : WellNamed canonical fields) {members output : Members}
    (accepted : readFields members fields = some output) {key : String} (unknown : ∀ field ∈ fields, key ∉ field.names) :
    known canonical output key = none := by
  have missing (name : String) (other : ∀ field ∈ fields, field.name ≠ name) : last name output = none := by
    refine last_eq_none fun entry inside same => ?_
    have listed : name ∈ fields.map Field.name := by
      rw [← names_readFields accepted, ← same]
      exact List.mem_map_of_mem inside
    obtain ⟨field, member, rfl⟩ := List.mem_map.mp listed
    exact other field member rfl
  rw [known, missing key fun field member same => unknown field member (List.mem_cons.mpr (.inl same.symm)), Option.none_or]
  refine Option.bind_eq_none_iff.mpr fun name stands => missing name fun field member same => ?_
  refine unknown field member (List.mem_cons_of_mem _ ((wellNamed.aliases field member key).mpr ?_))
  rw [same]
  exact stands

theorem filter_eraseMembers (dead : List String → Bool) (names : List String) (members : Members) :
    (eraseMembers dead members).filter (·.1 ∈ names) = eraseMembers dead (members.filter (·.1 ∈ names)) := by
  induction members with
  | nil => rw [eraseMembers, List.filter_nil, eraseMembers]
  | cons member rest ih =>
    obtain ⟨name, value⟩ := member
    rw [eraseMembers]
    by_cases inside : name ∈ names
    · rw [List.filter_cons_of_pos (by simpa using inside), eraseMembers]
      split
      next => exact ih
      next => rw [List.filter_cons_of_pos (by simpa using inside), ih]
    · rw [List.filter_cons_of_neg (by simpa using inside)]
      split
      next => exact ih
      next => rw [List.filter_cons_of_neg (by simpa using inside), ih]

theorem field_eraseMembers {dead : List String → Bool} {names : List String} {absent : Option Json}
    {read : Json → Option Json} (kept : ∀ key ∈ names, dead [key] = false)
    (same : ∀ key ∈ names, ∀ value, read (erase (fun path => dead (key :: path)) value) = read value) (members : Members) :
    Json.field names absent read (eraseMembers dead members) = Json.field names absent read members := by
  rw [Json.field, Json.field, filter_eraseMembers]
  have named : ∀ member ∈ members.filter (·.1 ∈ names), member.1 ∈ names :=
    fun member inside => of_decide_eq_true (List.mem_filter.mp inside).2
  cases given : members.filter (·.1 ∈ names) with
  | nil => rw [eraseMembers]
  | cons member rest =>
    rw [given] at named
    have stays (other : String × Json) (inside : other ∈ member :: rest) : ¬ dead [other.1] = true :=
      Bool.eq_false_iff.mp (kept other.1 (named other inside))
    rw [eraseMembers, if_neg (stays member List.mem_cons_self)]
    cases rest with
    | nil =>
      rw [eraseMembers]
      exact same member.1 (named member List.mem_cons_self) member.2
    | cons next others =>
      rw [eraseMembers, if_neg (stays next (List.mem_cons_of_mem _ List.mem_cons_self))]

/-- A field stays what it is exactly if its key, when it is given, can go or stay as it does. -/
theorem field_kept {field : Field} (lawful : field.shape.Lawful canonical) {dead : List String → Bool} {members : Members}
    {value : Json} (accepted : Json.field field.names field.absent field.shape.read members = some value) :
    Json.field field.names field.absent field.shape.read (eraseMembers dead members) = some value ↔
      ∀ member ∈ members, member.1 ∈ field.names → SparesMember dead field member := by
  have listed (member : String × Json) :
      member ∈ members ∧ member.1 ∈ field.names ↔ member ∈ members.filter (·.1 ∈ field.names) := by
    rw [List.mem_filter, decide_eq_true_iff]
  simp only [← and_imp, listed]
  rw [Json.field] at accepted
  rw [Json.field, filter_eraseMembers]
  split at accepted
  next none =>
    rw [none, eraseMembers]
    exact iff_of_true accepted fun member inside => absurd inside List.not_mem_nil
  next member single =>
    rw [single, List.forall_mem_singleton, SparesMember, eraseMembers, eraseMembers]
    by_cases gone : dead [member.1] = true
    · rw [if_pos gone, if_pos gone, accepted]
      exact eq_comm
    · rw [if_neg gone, if_neg gone]
      exact lawful.kept _ _ _ accepted
  next => cases accepted

theorem readFields_kept {members other output : Members} (accepted : readFields members fields = some output) :
    readFields other fields = some output ↔ ∀ field ∈ fields, ∀ value,
      Json.field field.names field.absent field.shape.read members = some value →
        Json.field field.names field.absent field.shape.read other = some value := by
  induction fields generalizing output with
  | nil =>
    cases accepted
    exact iff_of_true rfl fun field member => absurd member List.not_mem_nil
  | cons field rest ih =>
    obtain ⟨value, read, others⟩ := Option.bind_eq_some_iff.mp accepted
    obtain ⟨entries, readRest, rfl⟩ := Option.map_eq_some_iff.mp others
    rw [List.forall_mem_cons, ← ih readRest, readFields, read]
    constructor
    · intro same
      obtain ⟨value', read', others'⟩ := Option.bind_eq_some_iff.mp same
      obtain ⟨entries', readRest', whole⟩ := Option.map_eq_some_iff.mp others'
      obtain ⟨head, rfl⟩ := List.cons.inj whole
      cases head
      exact ⟨fun _ same => by rw [← same]; exact read', readRest'⟩
    · rintro ⟨first, rest'⟩
      rw [first value rfl, rest']
      rfl

theorem readFields_congr {first second : Members} (same : ∀ field ∈ fields,
    Json.field field.names field.absent field.shape.read first = Json.field field.names field.absent field.shape.read second) :
    readFields first fields = readFields second fields := by
  induction fields with
  | nil => rfl
  | cons field rest ih =>
    rw [readFields, readFields, same field List.mem_cons_self, ih fun other inside => same other (List.mem_cons_of_mem _ inside)]

theorem WellNamed.unique (wellNamed : WellNamed canonical fields) {first second : Field} (inside : first ∈ fields)
    (other : second ∈ fields) {key : String} (named : key ∈ first.names) (renamed : key ∈ second.names) :
    first = second := by
  refine List.inj_on_of_nodup_map wellNamed.distinct inside other ?_
  rcases List.mem_cons.mp named with rfl | stands
  · rcases List.mem_cons.mp renamed with same | stands
    · exact same
    · have standing := (wellNamed.aliases second other _).mp stands
      rw [wellNamed.plain first inside] at standing
      cases standing
  · have standing := (wellNamed.aliases first inside key).mp stands
    rcases List.mem_cons.mp renamed with rfl | again
    · rw [wellNamed.plain second other] at standing
      cases standing
    · exact Option.some.inj (standing.symm.trans ((wellNamed.aliases second other key).mp again))

/-- Under the name of a field, the field says what is unknown. -/
theorem unknown_iff (wellNamed : WellNamed canonical fields) {field : Field} (member : field ∈ fields) {key : String}
    (named : key ∈ field.names) (rest : Path) : UnknownInRecord fields (.key key :: rest) ↔ field.shape.Unknown rest := by
  constructor
  · rintro (⟨other, inside, renamed, unknown⟩ | ⟨absent, -⟩)
    · rw [wellNamed.unique member inside named renamed]
      exact unknown
    · exact absurd named (absent field member)
  · exact fun unknown => .inl ⟨field, member, named, unknown⟩

/-- What is collected under a key is what is unknown there: the key is that of one field, or of none. -/
theorem collected_key_iff (wellNamed : WellNamed canonical fields) (lawful : ∀ field ∈ fields, field.shape.Lawful canonical)
    {members entries : Members} (read : readFields members fields = some entries)
    {key : String} {value : Json} (found : last key members = some value) (rest : List String) :
    (match known canonical entries key with
      | none => key :: rest = [key]
      | some inner => ∃ other ∈ collectUnknown canonical (held value) inner, key :: rest = key :: other) ↔
    UnknownInRecord fields (.key key :: keys rest) ∧ Reachable value rest := by
  by_cases listed : ∃ field ∈ fields, key ∈ field.names
  · obtain ⟨field, member, named⟩ := listed
    obtain ⟨inner, given, known⟩ := known_field wellNamed read member named
    rw [known, unknown_iff wellNamed member named]
    refine Iff.trans ?_ ((lawful field member).collected value inner rest (read_of_last given found named))
    constructor
    · rintro ⟨other, inside, same⟩
      cases same
      exact inside
    · exact fun inside => ⟨rest, inside, rfl⟩
  · have absent : ∀ field ∈ fields, key ∉ field.names := fun field member named => listed ⟨field, member, named⟩
    rw [known_eq_none wellNamed read absent]
    constructor
    · intro same
      cases same
      exact ⟨.inr ⟨absent, rfl⟩, trivial⟩
    · rintro ⟨⟨field, member, named, -⟩ | ⟨-, nothing⟩, -⟩
      · exact absurd named (absent field member)
      · rw [List.map_eq_nil_iff.mp nothing]

theorem lawful_record (wellNamed : WellNamed canonical fields) (lawful : ∀ field ∈ fields, field.shape.Lawful canonical) :
    (record fields).Lawful canonical where
  root := id
  erased dead json unknown := by
    cases json with
    | obj members =>
      rw [erase]
      refine congrArg (Option.map _) (readFields_congr fun field member => field_eraseMembers (fun key named => ?_) ?_ members)
      · refine Bool.eq_false_iff.mpr fun taken => (lawful field member).root ?_
        exact (unknown_iff wellNamed member named _).mp (unknown [key] taken)
      · intro key named value
        refine (lawful field member).erased _ value fun path taken => ?_
        exact (unknown_iff wellNamed member named _).mp (unknown (key :: path) taken)
    | _ => rw [erase]
  kept dead json output accepted := by
    cases json with
    | obj members =>
      obtain ⟨entries, read, rfl⟩ := Option.map_eq_some_iff.mp accepted
      have whole : (record fields).read (erase dead (.obj members)) = some (.obj entries) ↔
          readFields (eraseMembers dead members) fields = some entries := by
        rw [erase]
        refine Option.map_eq_some_iff.trans ⟨?_, fun same => ⟨entries, same, rfl⟩⟩
        rintro ⟨entries', same, equal⟩
        cases equal
        exact same
      rw [whole, readFields_kept read]
      refine forall₂_congr fun field member => ?_
      obtain ⟨value, given, -⟩ := mem_readFields read member
      rw [← field_kept (lawful field member) given, given]
      exact ⟨fun same => same value rfl, fun same other here => here ▸ same⟩
    | _ =>
      rw [erase]
      exact iff_of_true accepted trivial
  collected json output path accepted := by
    cases json with
    | obj members =>
      obtain ⟨entries, read, rfl⟩ := Option.map_eq_some_iff.mp accepted
      rw [mem_collectUnknown_held]
      constructor
      · rintro ⟨key, value, found, collected⟩
        obtain ⟨rest, rfl⟩ : ∃ rest, path = key :: rest := by
          split at collected
          · exact ⟨[], collected⟩
          · obtain ⟨other, -, same⟩ := collected
            exact ⟨other, same⟩
        obtain ⟨unknown, reachable⟩ := (collected_key_iff wellNamed lawful read found rest).mp collected
        exact ⟨unknown, value, found, reachable⟩
      · rintro ⟨unknown, reachable⟩
        cases path with
        | nil => exact unknown.elim
        | cons key rest =>
          obtain ⟨value, found, reaches⟩ := reachable
          exact ⟨key, value, found, (collected_key_iff wellNamed lawful read found rest).mpr ⟨unknown, reaches⟩⟩
    | _ => exact collected_of_not_object id rfl output path

end Shape

end EkaCI.Lib
