import DottedNames.Json.Basic

/-!
# Objects in normal form

An object may give a name more than once and its members in any order. In
normal form every object of a value, however deep, has each name once, with
the value that it was given last, and its members stand in the ascending order
of their names. The normal form of a message does not depend on the order in
which the sender happened to write the members with different names.
-/

namespace DottedNames

namespace Json

/-- Puts a member into members in ascending order of their names; an earlier
member of the same name gives way. -/
def place (name : Text) (value : Json) : List (Text × Json) → List (Text × Json)
  | [] => [(name, value)]
  | (other, held) :: members =>
    if name = other then (name, value) :: members
    else if Text.isBefore name other then (name, value) :: (other, held) :: members
    else (other, held) :: place name value members

mutual

/-- The normal form of a value. -/
def normal : Json → Json
  | array items => array (normalItems items)
  | object members => object (normalMembers members [])
  | value => value

/-- The normal forms of the items of an array. -/
def normalItems : List Json → List Json
  | [] => []
  | item :: items => normal item :: normalItems items

/-- Puts the normal forms of the members of an object into members that are
already placed. -/
def normalMembers : List (Text × Json) → (placed : List (Text × Json)) → List (Text × Json)
  | [], placed => placed
  | (name, value) :: members, placed =>
    normalMembers members (place name (normal value) placed)

end

/-- The first value under a name. -/
def find? (name : Text) : List (Text × Json) → Option Json
  | [] => none
  | (other, value) :: members => if name = other then some value else find? name members

end Json

end DottedNames
