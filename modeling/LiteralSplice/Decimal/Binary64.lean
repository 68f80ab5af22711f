/-
Binary floating-point numbers of 64 bits, held exactly.

Every finite number of the format is a whole multiple of the least positive one, `2 ^ (-1074)`.
A finite number is therefore held as a sign and that multiple, and comparing two numbers or a
number and an integer is comparing integers.

* **`Binary64`**: not a number, an infinity, or a sign with a multiple of the unit;
* **`Binary64.ofDecimal`**: the number nearest to `digits * 10 ^ exponent`, ties to even;
* **`Binary64.spacing`**: the exponent of the distance to the next greater number.
-/

namespace LiteralSplice

/-- A number of the format, finite ones as a multiple of `2 ^ (-1074)`. -/
inductive Binary64 where
  | nan
  | infinite (negative : Bool)
  | finite (negative : Bool) (units : Nat)
  deriving DecidableEq, Repr

namespace Binary64

/-- The units in one: `2 ^ 1074`. -/
def one : Nat := Nat.pow 2 1074

/-- The first multiple of the unit that is too great for a finite number. -/
def limit : Nat := Nat.pow 2 2098

/-- The quotient of two numbers rounded to the nearest, a half to the even neighbour. -/
def roundDiv (num den : Nat) : Nat :=
  let q := num / den
  let r := 2 * (num % den)
  if r < den ∨ r = den ∧ q % 2 = 0 then q else q + 1

/-- The exponent of the distance between a multiple of the unit and its upper neighbour in the
format: 53 significant bits are kept. -/
def spacing (units : Nat) : Nat := Nat.log2 units - 52

/-- The multiple of the unit that is nearest to a quotient and has 53 significant bits. -/
def roundUnits (num den : Nat) : Nat :=
  let step := Nat.pow 2 (spacing (num / den))
  roundDiv num (den * step) * step

/-- A magnitude with a sign, infinite from `limit` on. -/
def ofUnits (negative : Bool) (units : Nat) : Binary64 :=
  if limit ≤ units then .infinite negative else .finite negative units

/-- The number nearest to `digits * 10 ^ exponent`.  The first two cases keep the powers small:
every nonzero number of the format lies between `10 ^ (-330)` and `10 ^ 310`. -/
def ofDecimal (negative : Bool) (digits : Nat) (exponent : Int) : Binary64 :=
  let places : Int := (Nat.toDigits 10 digits).length
  if digits = 0 ∨ places + exponent < -330 then .finite negative 0
  else if 310 < places + exponent then .infinite negative
  else if 0 ≤ exponent then
    ofUnits negative (roundUnits (digits * Nat.pow 10 exponent.toNat * one) 1)
  else ofUnits negative (roundUnits (digits * one) (Nat.pow 10 (-exponent).toNat))

end Binary64

end LiteralSplice
