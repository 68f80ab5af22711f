/-
JSON values.

* **`Json`**: null, booleans, integers of any size, binary numbers, texts, arrays, and objects
  as lists of members in the order in which their keys first appear;
* **`Json.find?`**: a member of an object;
* **`Json.without`**: a value without the members whose keys are hidden;
* **`Json.kindName`**: the word for the kind of a value in messages;
* **`Json.display`**: a value as shown in messages.

Design notes: an integer and a binary number are different values even where they are equal
as numbers, because they are written differently.
-/
import LiteralSplice.Decimal.Shortest
import LiteralSplice.Text.Quoted

namespace LiteralSplice

/-- A JSON value. -/
inductive Json where
  | null
  | bool (value : Bool)
  | int (value : Int)
  | float (value : Binary64)
  | string (value : Text)
  | array (items : List Json)
  | object (members : List (Text × Json))
  deriving Repr, Inhabited

namespace Json

/-- Adds a member to an object: a key that is there already keeps its place and takes the new
value. -/
def insert (members : List (Text × Json)) (key : Text) (value : Json) : List (Text × Json) :=
  match members with
  | [] => [(key, value)]
  | (k, v) :: rest => if k = key then (k, value) :: rest else (k, v) :: insert rest key value

/-- The value of a member of an object. -/
def find? (key : Text) : Json → Option Json
  | object members => members.lookup key
  | _ => none

/-- The text of a string value. -/
def text? : Json → Option Text
  | string t => some t
  | _ => none

/-- The items of an array that are strings. -/
def texts : Json → List Text
  | array items => items.filterMap text?
  | _ => []

mutual

/-- Whether every number of a value is finite. -/
def isFinite : Json → Bool
  | float .nan => false
  | float (.infinite _) => false
  | array items => areFinite items
  | object members => membersAreFinite members
  | _ => true

/-- Whether every number of some items is finite. -/
def areFinite : List Json → Bool
  | [] => true
  | v :: rest => isFinite v && areFinite rest

/-- Whether every number of some members is finite. -/
def membersAreFinite : List (Text × Json) → Bool
  | [] => true
  | (_, v) :: rest => isFinite v && membersAreFinite rest

end

mutual

/-- A value without the members, at any depth, whose keys are hidden. -/
def without (hidden : Text → Bool) : Json → Json
  | array items => array (itemsWithout hidden items)
  | object members => object (membersWithout hidden members)
  | v => v

/-- Items without the members whose keys are hidden. -/
def itemsWithout (hidden : Text → Bool) : List Json → List Json
  | [] => []
  | v :: rest => without hidden v :: itemsWithout hidden rest

/-- Members without those whose keys are hidden. -/
def membersWithout (hidden : Text → Bool) : List (Text × Json) → List (Text × Json)
  | [] => []
  | (k, v) :: rest =>
    if hidden k then membersWithout hidden rest
    else (k, without hidden v) :: membersWithout hidden rest

end

/-- The word for the kind of a value. -/
def kindName : Json → Text
  | null => "NoneType"
  | bool _ => "bool"
  | int _ => "int"
  | float _ => "float"
  | string _ => "str"
  | array _ => "list"
  | object _ => "dict"

mutual

/-- A value as shown in messages: texts quoted, everything on one line. -/
def display : Json → Text
  | null => "None"
  | bool true => "True"
  | bool false => "False"
  | int n => Text.ofInt n
  | float x => x.text
  | string t => t.quoted
  | array items => "[" ++ Text.join ", " (displayItems items) ++ "]"
  | object members => "\x7b" ++ Text.join ", " (displayMembers members) ++ "\x7d"

/-- The items of an array as shown in messages. -/
def displayItems : List Json → List Text
  | [] => []
  | v :: rest => display v :: displayItems rest

/-- The members of an object as shown in messages. -/
def displayMembers : List (Text × Json) → List Text
  | [] => []
  | (k, v) :: rest => (k.quoted ++ ": " ++ display v) :: displayMembers rest

end

end Json

end LiteralSplice
