/-!
# JSON values

Whole numbers that fit a 64-bit word are values; every other number is kept as it was written. What
is well formed but has no value is kept too, since a reader may ignore it.
-/

namespace Blockflow

/-- A document; members keep their order. -/
inductive Json where
  | null
  | bool (value : Bool)
  | integer (value : Int)
  | real (spelling : String)
  | string (value : String)
  | array (items : List Json)
  | object (members : List (String × Json))
  /-- A number beyond binary64, a string with half of a surrogate pair, or what nests too deeply. -/
  | unusable
  deriving Inhabited, Repr

namespace Json

mutual

def isUsable : Json → Bool
  | .unusable => false
  | .array items => areUsable items
  | .object members => membersUsable members
  | _ => true

def areUsable : List Json → Bool
  | [] => true
  | item :: items => isUsable item && areUsable items

def membersUsable : List (String × Json) → Bool
  | [] => true
  | (_, value) :: members => isUsable value && membersUsable members

end

/-- Members with every repeated name reduced to its last value. -/
def lastWins (members : List (String × Json)) : List (String × Json) :=
  members.foldl (fun kept (name, value) => kept.filter (·.1 != name) ++ [(name, value)]) []

/-- A member of an object; of a repeated one the last counts. -/
def member? (name : String) (members : List (String × Json)) : Option Json :=
  (members.reverse.find? (·.1 == name)).map (·.2)

def string? : Json → Option String
  | .string value => some value
  | _ => none

def bool? : Json → Option Bool
  | .bool value => some value
  | _ => none

def natBelow? (limit : Nat) : Json → Option Nat
  | .integer value => if 0 ≤ value && value < limit then some value.toNat else none
  | _ => none

def array? : Json → Option (List Json)
  | .array items => some items
  | _ => none

def listOf? {α : Type} (item? : Json → Option α) : Json → Option (List α)
  | .array items => items.mapM item?
  | _ => none

/-- The fields of a record, in the order of `names`. A record is written as an object, where other
members are ignored and a repeated field is refused, or as an array of leading fields. -/
def record? (names : List String) : Json → Option (List (Option Json))
  | .object members =>
    names.mapM fun name =>
      match members.filter (·.1 == name) with
      | [] => some none
      | [(_, value)] => some (some value)
      | _ => none
  | .array items =>
    if items.length ≤ names.length then
      some (items.map some ++ List.replicate (names.length - items.length) none)
    else none
  | _ => none

/-- A member that must be there. -/
def required? {α : Type} (decode : Json → Option α) (field : Option Json) : Option α :=
  field.bind decode

/-- A member that may be missing. -/
def optional? {α : Type} (absent : α) (decode : Json → Option α) : Option Json → Option α
  | none => some absent
  | some value => decode value

end Json

end Blockflow
