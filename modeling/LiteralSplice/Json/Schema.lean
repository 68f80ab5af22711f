/-
Schemas for JSON documents.

* **`Json.Schema`**: strings, whole numbers, lists and records;
* **`Json.Schema.mismatches`**: every place of a value that breaks a schema, and how;
* **`Json.decisive?`**: the one mismatch that is reported.

Design notes: the mismatch that is reported is the one nearest to the root; among equally near
ones it is the one with the greatest path, where names are ordered as texts and items by their
index; among those at one place it is the first found.
-/
import LiteralSplice.Json.Order

namespace LiteralSplice

namespace Json

/-- One step from a value to a part of it. -/
inductive Step where
  | key (name : Text)
  | index (i : Nat)
  deriving DecidableEq, Repr

/-- Whether a step comes before another; names come after indices. -/
def Step.lt : Step → Step → Bool
  | .key a, .key b => Text.lt a b
  | .index i, .index j => i < j
  | .index _, .key _ => true
  | .key _, .index _ => false

def Step.text : Step → Text
  | .key name => name
  | .index i => Text.ofNat i

/-- Whether a path comes before another: the first steps that differ decide. -/
def pathLt : List Step → List Step → Bool
  | _, [] => false
  | [], _ :: _ => true
  | a :: as, b :: bs => a.lt b || (a == b && pathLt as bs)

/-- How a value breaks a schema. -/
inductive Complaint where
  | kind (value : Json) (expected : Text)
  | missing (name : Text)
  | unexpected (names : List Text)
  | short (value : Json)
  | repeated (value : Json)
  | small (value : Json) (least : Int)
  | other (expected : Int)
  deriving Repr

def Complaint.message : Complaint → Text
  | .kind value expected => value.display ++ " is not of type '" ++ expected ++ "'"
  | .missing name => name.quoted ++ " is a required property"
  | .unexpected names =>
    let verb : Text := if names.length = 1 then "was" else "were"
    "Additional properties are not allowed (" ++ Text.join ", " (names.map Text.quoted) ++ " "
      ++ verb ++ " unexpected)"
  | .short value => value.display ++ " is too short"
  | .repeated value => value.display ++ " has non-unique elements"
  | .small value least =>
    value.display ++ " is less than the minimum of " ++ Text.ofInt least
  | .other expected => Text.ofInt expected ++ " was expected"

/-- A place in a value and what is wrong with it. -/
structure Mismatch where
  path : List Step
  complaint : Complaint
  deriving Repr

/-- The same mismatch seen from one level further up. -/
def Mismatch.under (step : Step) (m : Mismatch) : Mismatch :=
  { m with path := step :: m.path }

/-- What a document has to look like. -/
inductive Schema where
  /-- A string. -/
  | string
  /-- One given integer. -/
  | exactly (n : Int)
  /-- An integer with a lower bound. -/
  | integer (least : Int)
  /-- A list of a least length whose items fit a schema and, if `distinct`, do not repeat. -/
  | list (item : Schema) (least : Nat) (distinct : Bool)
  /-- An object with no other members than the named ones, some of them required. -/
  | record (required : List Text) (fields : List (Text × Schema))

/-- Puts names in ascending order. -/
def sortNames (names : List Text) : List Text :=
  names.mergeSort fun a b => !Text.lt b a

namespace Schema

mutual

/-- Everything in a value that breaks a schema. -/
def mismatches : Schema → Json → List Mismatch
  | .string, v =>
    match v with
    | .string _ => []
    | _ => [⟨[], .kind v "string"⟩]
  | .exactly n, v =>
    match v with
    | .int m => if m = n then [] else [⟨[], .other n⟩]
    | _ => [⟨[], .other n⟩]
  | .integer least, v =>
    match v with
    | .int m => if m < least then [⟨[], .small v least⟩] else []
    | _ => [⟨[], .kind v "integer"⟩]
  | .list item least distinct, v =>
    match v with
    | .array vs =>
      (vs.zipIdx.flatMap fun (w, i) => (mismatches item w).map (.under (.index i)))
        ++ (if vs.length < least then [⟨[], .short v⟩] else [])
        ++ (if distinct && hasRepetition vs then [⟨[], .repeated v⟩] else [])
    | _ => [⟨[], .kind v "array"⟩]
  | .record required fields, v =>
    match v with
    | .object ms =>
      let keys := ms.map (·.1)
      let extra := keys.filter fun k => (fields.lookup k).isNone
      (required.filter fun name => !keys.contains name).map (fun name => ⟨[], .missing name⟩)
        ++ (if extra.isEmpty then [] else [⟨[], .unexpected (sortNames extra)⟩])
        ++ fieldMismatches fields ms
    | _ => [⟨[], .kind v "object"⟩]

/-- Everything in the members of an object that breaks the schemas of its fields. -/
def fieldMismatches : List (Text × Schema) → List (Text × Json) → List Mismatch
  | [], _ => []
  | (name, schema) :: rest, ms =>
    (match ms.lookup name with
      | some v => (mismatches schema v).map (.under (.key name))
      | none => []) ++ fieldMismatches rest ms

end

end Schema

/-- Whether a mismatch is to be reported rather than another. -/
def Mismatch.outranks (a b : Mismatch) : Bool :=
  a.path.length < b.path.length ||
    (a.path.length == b.path.length && pathLt b.path a.path)

/-- The mismatch that is reported. -/
def decisive? : List Mismatch → Option Mismatch
  | [] => none
  | m :: rest =>
    some (rest.foldl (fun best next => if next.outranks best then next else best) m)

end Json

end LiteralSplice
