/-
Shortest decimal texts of binary floating-point numbers.

* **`Binary64.shortest?`**: the fewest digits that read back as the number, nearest first;
* **`Binary64.text`**: those digits, positional for numbers of moderate size.

Design notes: a decimal reads back as the number when it lies in the interval of reals that
round to it.  On the grid of decimals with a given count of digits only the two neighbours of
the number can be the nearest hit, so they are tried for 1, 2, ... 17 digits.  Everything is
compared in whole numbers: units of the format times powers of ten.
-/
import LiteralSplice.Decimal.Binary64
import LiteralSplice.Text.Basic

namespace LiteralSplice

namespace Binary64

/-- A decimal number: `digits * 10 ^ exponent`. -/
structure Decimal where
  digits : Nat
  exponent : Int
  deriving DecidableEq, Repr

/-- The reals that round to a multiple of the unit, in quarters of the unit: the two ends, and
whether they belong to it. -/
structure Interval where
  least : Nat
  greatest : Nat
  closed : Bool
  deriving DecidableEq, Repr

/-- The interval of a multiple of the unit; below a power of two the neighbour is half as far. -/
def interval (units : Nat) : Interval :=
  let s := spacing units
  let step := Nat.pow 2 s
  let below := if units = Nat.pow 2 (52 + s) ∧ 0 < s then step else 2 * step
  ⟨4 * units - below, 4 * units + 2 * step, units / step % 2 = 0⟩

/-- The exponent of the leading decimal digit of a positive number. -/
def leadingExponent (units : Nat) : Int :=
  if one ≤ units then (Nat.toDigits 10 (units / one)).length - 1
  else
    match (List.range 400).find? fun k => one ≤ units * Nat.pow 10 (k + 1) with
    | some k => -(k + 1 : Int)
    | none => -400

/-- The grid point with the given count of digits that reads back as the number, if one of the
two neighbours does: the nearer one, of two equally near the even one. -/
def onGrid? (units count : Nat) : Option Decimal :=
  let exponent : Int := leadingExponent units - (count - 1 : Nat)
  let up := Nat.pow 10 (-exponent).toNat
  let down := one * Nat.pow 10 exponent.toNat
  let i := interval units
  let hits (d : Nat) : Bool :=
    let point := 4 * d * down
    if i.closed then i.least * up ≤ point && point ≤ i.greatest * up
    else i.least * up < point && point < i.greatest * up
  let low := units * up / down
  let rest := 2 * (units * up % down)
  let nearLow := rest < down || (rest == down && low % 2 == 0)
  if hits low && (nearLow || !hits (low + 1)) then some ⟨low, exponent⟩
  else if hits (low + 1) then some ⟨low + 1, exponent⟩
  else none

/-- The fewest digits that read back as a positive number. -/
def shortest? (units : Nat) : Option Decimal :=
  (List.range 17).findSome? fun n => onGrid? units (n + 1)

/-- A number without the zeros at its end, and how many there were. -/
def dropZeros : Nat → Nat → Nat × Nat
  | 0, n => (n, 0)
  | fuel + 1, n =>
    if n % 10 = 0 ∧ n ≠ 0 then
      let (m, k) := dropZeros fuel (n / 10)
      (m, k + 1)
    else (n, 0)

/-- Digits with a point after the first `point` of them; zeros fill the places on either side. -/
def positional (digits : Text) (point : Int) : Text :=
  let zeros (count : Nat) : Text := List.replicate count (CodePoint.digit 0)
  let whole := point.toNat
  if point ≤ 0 then "0." ++ zeros (-point).toNat ++ digits
  else if digits.length ≤ whole then digits ++ zeros (whole - digits.length) ++ ".0"
  else
    let (before, after) : Text × Text := digits.splitAt whole
    before ++ "." ++ after

/-- Digits with a point after the first, and an exponent of at least two digits with its sign. -/
def withExponent (digits : Text) (exponent : Int) : Text :=
  let size := Text.ofNat exponent.natAbs
  let padded := if size.length < 2 then CodePoint.digit 0 :: size else size
  let sign : Text := if exponent < 0 then "-" else "+"
  match digits with
  | [_] => digits ++ "e" ++ sign ++ padded
  | _ => positional digits 1 ++ "e" ++ sign ++ padded

/-- The text of a finite magnitude: positional from `10 ^ (-4)` on and below `10 ^ 16`. -/
def magnitudeText (units : Nat) : Text :=
  if units = 0 then "0.0"
  else
    match shortest? units with
    | none => []
    | some d =>
      let (digits, zeros) := dropZeros 17 d.digits
      let shown := Text.ofNat digits
      let leading : Int := d.exponent + zeros + shown.length - 1
      if -4 ≤ leading ∧ leading < 16 then positional shown (leading + 1)
      else withExponent shown leading

/-- The text of a number. -/
def text : Binary64 → Text
  | .nan => "nan"
  | .infinite false => "inf"
  | .infinite true => "-inf"
  | .finite false units => magnitudeText units
  | .finite true units => "-" ++ magnitudeText units

end Binary64

end LiteralSplice
