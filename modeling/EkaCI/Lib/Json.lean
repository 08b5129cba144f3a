import Mathlib.Data.Rat.Defs

/-! JSON values, and readers of records from the members of an object. A member that no
field asks for is passed over; a field that is given twice is an error. -/

namespace EkaCI.Lib

universe u

/-- A number is written as an integer or with a fraction. -/
inductive Json where
  | null
  | bool (value : Bool)
  | int (value : Int)
  | float (value : ℚ)
  | str (value : String)
  | arr (items : List Json)
  | obj (members : List (String × Json))

namespace Json

abbrev Members := List (String × Json)

variable {A : Type u}

def getBool : Json → Option Bool
  | .bool value => some value
  | _ => none

def getStr : Json → Option String
  | .str value => some value
  | _ => none

def getU64 : Json → Option Nat
  | .int value => if 0 ≤ value ∧ value < 18446744073709551616 then some value.toNat else none
  | _ => none

def getNumber : Json → Option ℚ
  | .int value => some value
  | .float value => some value
  | _ => none

def getMembers : Json → Option Members
  | .obj members => some members
  | _ => none

/-- Of a key that occurs more than once the last value counts. -/
def get (key : String) (value : Json) : Option Json :=
  (getMembers value).bind fun members => (members.reverse.find? (·.1 = key)).map Prod.snd

/-- `null` is the absent value. -/
def getOption (read : Json → Option A) : Json → Option (Option A)
  | .null => some none
  | value => (read value).map some

def getList (read : Json → Option A) : Json → Option (List A)
  | .arr items => items.mapM read
  | _ => none

/-- Of a key that occurs more than once the last value counts. -/
def getMap (read : Json → Option A) (value : Json) : Option (List (String × A)) :=
  (getMembers value).bind fun members => members.mapM fun member => (read member.2).map (member.1, ·)

/-- The field that goes under one of these names; `absent` is its value when it is left out. -/
def field (names : List String) (absent : Option A) (read : Json → Option A) (members : Members) : Option A :=
  match members.filter (·.1 ∈ names) with
  | [] => absent
  | [member] => read member.2
  | _ => none

def ofOption (write : A → Json) : Option A → Json
  | none => .null
  | some value => write value

/-- What was written is read back. -/
def Reads (read : Json → Option A) (write : A → Json) : Prop := ∀ value, read (write value) = some value

section Laws

variable {read : Json → Option A} {write : A → Json}

theorem reads_bool : Reads getBool .bool := fun _ => rfl

theorem reads_str : Reads getStr .str := fun _ => rfl

theorem reads_option (reads : Reads read write) (present : ∀ value, write value ≠ .null) :
    Reads (getOption read) (ofOption write) := by
  intro value
  cases value with
  | none => rfl
  | some value =>
    rw [ofOption, getOption, reads value]
    · rfl
    · exact present value

theorem reads_list (reads : Reads read write) : Reads (getList read) fun values => .arr (values.map write) := by
  intro values
  rw [getList]
  induction values with
  | nil => rfl
  | cons value rest ih =>
    rw [List.map_cons, List.mapM_cons, reads value, ih]
    rfl

theorem field_present {names : List String} {absent : Option A} {members : Members} {name : String} {value : A}
    (reads : Reads read write) (single : members.filter (·.1 ∈ names) = [(name, write value)]) :
    field names absent read members = some value := by
  rw [field, single]
  exact reads value

end Laws

end Json

end EkaCI.Lib
