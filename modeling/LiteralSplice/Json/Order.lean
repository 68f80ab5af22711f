/-
Comparing JSON values.

* **`Json.same`**: equality for the purpose of finding repetitions;
* **`Json.alike`**: equality that also takes a boolean for the number zero or one;
* **`Json.below?`**: the order of values, where they have one;
* **`Json.hasRepetition`**: whether a list holds two neighbours that are the same once it is
  put in order, or, where its items have no order, any two items that are the same.

Design notes: numbers are compared by value, so `1` and `1.0` are the same; all values that are
not a number count as one value.  Lists are ordered by their first items that are not alike.
The search for repetitions puts a list in order first; inside nested lists a boolean is ordered
like a number and is yet not the same as it, so items that are the same need not end up as
neighbours.
-/
import LiteralSplice.Json.Value
import LiteralSplice.RunSort

namespace LiteralSplice

namespace Json

/-- A number on the scale of the least binary number, with an infinity at either end. -/
inductive Scaled where
  | least
  | units (n : Int)
  | greatest
  deriving DecidableEq, Repr

/-- The place of a number on the scale; a value that is not a number has none. -/
def Scaled.ofBinary? : Binary64 → Option Scaled
  | .nan => none
  | .infinite true => some .least
  | .infinite false => some .greatest
  | .finite true n => some (.units (-n))
  | .finite false n => some (.units n)

/-- The place of an integer on the scale. -/
def Scaled.ofInt (n : Int) : Scaled := .units (n * Binary64.one)

def Scaled.lt : Scaled → Scaled → Bool
  | .units a, .units b => a < b
  | .least, .least => false
  | .least, _ => true
  | .units _, .greatest => true
  | _, _ => false

/-- A value that is neither a text nor a list nor an object, as a number: a boolean counts as
zero or one. -/
inductive Scalar where
  | null
  | notANumber
  | number (n : Scaled)
  deriving DecidableEq, Repr

/-- A binary number as a scalar. -/
def Scalar.ofBinary (x : Binary64) : Scalar :=
  match Scaled.ofBinary? x with
  | some n => .number n
  | none => .notANumber

mutual

/-- Equality that takes a boolean for the number zero or one. -/
def alike : Json → Json → Bool
  | null, null => true
  | string a, string b => a == b
  | array a, array b => alikeItems a b
  | object a, object b => a.length == b.length && alikeMembers a b
  | bool a, bool b => a == b
  | bool a, int n => n == if a then 1 else 0
  | int n, bool a => n == if a then 1 else 0
  | bool a, float x => Scalar.ofBinary x == .number (.ofInt (if a then 1 else 0))
  | float x, bool a => Scalar.ofBinary x == .number (.ofInt (if a then 1 else 0))
  | int m, int n => m == n
  | int n, float x => Scalar.ofBinary x == .number (.ofInt n)
  | float x, int n => Scalar.ofBinary x == .number (.ofInt n)
  | float x, float y => Scalar.ofBinary x == Scalar.ofBinary y
  | _, _ => false

/-- Lists of the same length whose items are alike. -/
def alikeItems : List Json → List Json → Bool
  | [], [] => true
  | a :: as, b :: bs => alike a b && alikeItems as bs
  | _, _ => false

/-- Every member of the first has a counterpart in the second. -/
def alikeMembers : List (Text × Json) → List (Text × Json) → Bool
  | [], _ => true
  | (k, a) :: rest, other =>
    (match other.lookup k with
      | some b => alike a b
      | none => false) && alikeMembers rest other

end

mutual

/-- Equality that tells booleans from numbers, inside lists and objects too. -/
def same : Json → Json → Bool
  | array a, array b => sameItems a b
  | object a, object b => a.length == b.length && sameMembers a b
  | bool a, bool b => a == b
  | bool _, _ => false
  | _, bool _ => false
  | a, b => alike a b

/-- Lists of the same length whose items are the same. -/
def sameItems : List Json → List Json → Bool
  | [], [] => true
  | a :: as, b :: bs => same a b && sameItems as bs
  | _, _ => false

/-- Every member of the first has the same counterpart in the second. -/
def sameMembers : List (Text × Json) → List (Text × Json) → Bool
  | [], _ => true
  | (k, a) :: rest, other =>
    (match other.lookup k with
      | some b => same a b
      | none => false) && sameMembers rest other

end

/-- A value as a number, booleans as zero or one. -/
def scalar? : Json → Option Scalar
  | bool a => some (.number (.ofInt (if a then 1 else 0)))
  | int n => some (.number (.ofInt n))
  | float x => some (Scalar.ofBinary x)
  | _ => none

mutual

/-- Whether a value comes before another; `none` where the two have no order. -/
def below? : Json → Json → Option Bool
  | string a, string b => some (Text.lt a b)
  | array a, array b => belowItems? a b
  | a, b =>
    match scalar? a, scalar? b with
    | some (.number m), some (.number n) => some (m.lt n)
    | some _, some _ => some false
    | _, _ => none

/-- The order of lists: that of their first items that are not alike. -/
def belowItems? : List Json → List Json → Option Bool
  | [], [] => some false
  | [], _ :: _ => some true
  | _ :: _, [] => some false
  | a :: as, b :: bs => if alike a b then belowItems? as bs else below? a b

end

/-! ### Putting a list in order -/

/-- Whether a value has a place in an order with others: a boolean item has none. -/
def isOrderable : Json → Bool
  | bool _ => false
  | _ => true

/-- The order of two items of a list. -/
def itemBelow? (a b : Json) : Option Bool :=
  if a.isOrderable && b.isOrderable then below? a b else none

/-- Whether two neighbours of a list are the same. -/
def hasTwins : List Json → Bool
  | a :: b :: rest => same a b || hasTwins (b :: rest)
  | _ => false

/-- Whether any two items of a list are the same. -/
def hasPair : List Json → Bool
  | [] => false
  | a :: rest => rest.any (same a) || hasPair rest

/-- Whether a list repeats an item. -/
def hasRepetition (items : List Json) : Bool :=
  match RunSort.sort? itemBelow? items with
  | some sorted => hasTwins sorted
  | none => hasPair items

end Json

end LiteralSplice
