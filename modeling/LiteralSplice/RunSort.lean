/-
Putting a list in order by its runs.

* **`RunSort.sort?`**: a list in order, if every two items that are compared have an order;
* **`RunSort.nextRun?`**: the run at the start of a list;
* **`RunSort.merge?`**: two neighbouring runs as one.

Design notes: a run is a stretch of a list that is in order already, or that is once it is turned
round.  Short runs are made longer by putting in what follows, item by item.  Two neighbouring
runs are merged item by item, until one of them has given `patience` items in a row; then whole
stretches of it are looked for.  A run is merged with the one before it no later than the place
where the two meet asks for, so that runs of about the same length meet.  Where the comparison is
an order all of this is only a matter of speed; where it is not, as with values none of which
comes before the others, the list that comes out is still settled by which items are compared.
-/

namespace LiteralSplice

namespace RunSort

variable {α : Type}

/-! ### Searching -/

/-- How many items at the start of a list pass a test, if at least `least` and at most `greatest`
do; the middle of what is left is rounded up if asked. -/
def bisect? (roundUp : Bool) (passes : α → Option Bool) (xs : List α) :
    Nat → Nat → Nat → Option Nat
  | 0, least, _ => some least
  | fuel + 1, least, greatest =>
    if greatest ≤ least then some least
    else
      let half := (greatest - least) / 2
      let middle := if roundUp then greatest - 1 - half else least + half
      match xs[middle]? with
      | none => some least
      | some x => do
        if ← passes x then bisect? roundUp passes xs fuel (middle + 1) greatest
        else bisect? roundUp passes xs fuel least middle

/-- Bounds for how many items at the start of a list pass a test: the item at `last` does, and
the next one that is looked at is at `next`. -/
def bracket? (passes : α → Option Bool) (xs : List α) : Nat → Nat → Nat → Option (Nat × Nat)
  | 0, last, _ => some (last + 1, xs.length)
  | fuel + 1, last, next =>
    match xs[next]? with
    | none => some (last + 1, xs.length)
    | some x => do
      if ← passes x then bracket? passes xs fuel next (2 * next + 1) else some (last + 1, next)

/-- How many items at the start of a list pass a test, found in steps of growing length. -/
def stretch? (roundUp : Bool) (passes : α → Option Bool) (xs : List α) : Option Nat :=
  match xs with
  | [] => some 0
  | x :: _ => do
    if ← passes x then
      let (least, greatest) ← bracket? passes xs xs.length 0 1
      bisect? roundUp passes xs xs.length least greatest
    else return 0

/-! ### Merging two runs -/

/-- From which end two runs are merged. -/
inductive Course where
  | rising
  | falling
  deriving DecidableEq, Repr

/-- Two runs on the way to becoming one: what is left of both, the item to be given next first,
and what has been taken, the item that was taken last first. -/
structure Merge (α : Type) where
  left : List α
  right : List α
  taken : List α
  patience : Nat

/-- How two runs are gone through: item by item, with the number of items that either has given
in a row, or stretch by stretch. -/
inductive Pace where
  | single (left right : Nat)
  | stretches (first : Bool)

/-- The length from which on stretches are worth looking for. -/
def worthwhile : Nat := 7

namespace Merge

def takeLeft (m : Merge α) (n : Nat) : Merge α :=
  { m with left := m.left.drop n, taken := (m.left.take n).reverse ++ m.taken }

def takeRight (m : Merge α) (n : Nat) : Merge α :=
  { m with right := m.right.drop n, taken := (m.right.take n).reverse ++ m.taken }

/-- What is left of both runs, once it needs no more comparing: the run that is merged into the
other has one item left, which is known to be the last, or one of the two is used up. -/
def rest? (course : Course) (m : Merge α) : Option (List α) :=
  let (inner, outer) :=
    match course with
    | .rising => (m.left, m.right)
    | .falling => (m.right, m.left)
  match inner with
  | [] => some outer
  | [x] => some (outer ++ [x])
  | _ => if outer.isEmpty then some inner else none

/-- A merge that goes on, or, as an exception, the merged run. -/
def goOn (course : Course) (m : Merge α) : ExceptT (List α × Nat) Option (Merge α) :=
  match m.rest? course with
  | some rest => throw (m.taken.reverse ++ rest, m.patience)
  | none => return m

/-- One step of a merge; `leftFirst?` says whether an item of the left run is to be taken before
an item of the right one. -/
def step (course : Course) (leftFirst? : α → α → Option Bool) (pace : Pace) (m : Merge α) :
    ExceptT (List α × Nat) Option (Pace × Merge α) :=
  let roundUp : Bool := course == .falling
  match m.left, m.right with
  | a :: _, b :: _ =>
    match pace with
    | .single fromLeft fromRight => do
      let isLeft ← leftFirst? a b
      let m ← goOn course (if isLeft then m.takeLeft 1 else m.takeRight 1)
      let inRow := (if isLeft then fromLeft else fromRight) + 1
      if m.patience ≤ inRow then return (.stretches true, m)
      else return (if isLeft then .single inRow 0 else .single 0 inRow, m)
    | .stretches first => do
      let m : Merge α :=
        if first ∨ m.patience ≤ 1 then m else { m with patience := m.patience - 1 }
      let fromLeft ← stretch? roundUp (leftFirst? · b) m.left
      let m ← goOn course (m.takeLeft fromLeft)
      let m ← goOn course (m.takeRight 1)
      let fromRight ←
        match m.left with
        | a :: _ => stretch? roundUp (fun b => (leftFirst? a b).map not) m.right
        | [] => pure 0
      let m ← goOn course (m.takeRight fromRight)
      let m ← goOn course (m.takeLeft 1)
      if worthwhile ≤ fromLeft ∨ worthwhile ≤ fromRight then return (.stretches false, m)
      else return (.single 0 0, { m with patience := m.patience + 1 })
  | left, right => throw (m.taken.reverse ++ left ++ right, m.patience)

/-- Goes on step by step; a step takes at least one item. -/
def finish? (course : Course) (leftFirst? : α → α → Option Bool) :
    Nat → Pace → Merge α → Option (List α × Nat)
  | 0, _, m => some (m.taken.reverse ++ m.left ++ m.right, m.patience)
  | fuel + 1, pace, m =>
    match (step course leftFirst? pace m).run with
    | none => none
    | some (.error merged) => some merged
    | some (.ok (pace, m)) => finish? course leftFirst? fuel pace m

/-- Merges from the start; the first item is known to come from the right run. -/
def rising? (before? : α → α → Option Bool) (left right : List α) (patience : Nat) :
    Option (List α × Nat) :=
  let m : Merge α := ⟨left, right.drop 1, right.take 1, patience⟩
  match m.rest? .rising with
  | some rest => some (m.taken.reverse ++ rest, patience)
  | none =>
    finish? .rising (fun a b => (before? b a).map not) (left.length + right.length) (.single 0 0) m

/-- Merges from the end; the last item is known to come from the left run. -/
def falling? (before? : α → α → Option Bool) (left right : List α) (patience : Nat) :
    Option (List α × Nat) :=
  let m : Merge α :=
    ⟨left.reverse.drop 1, right.reverse, left.reverse.take 1, patience⟩
  let merged :=
    match m.rest? .falling with
    | some rest => some (m.taken.reverse ++ rest, patience)
    | none => finish? .falling (fun a b => before? b a) (left.length + right.length) (.single 0 0) m
  merged.map fun (items, patience) => (items.reverse, patience)

end Merge

/-- Two neighbouring runs as one, and the patience from then on.  What is in place already, at the
start of the left run and at the end of the right one, is left alone, and the shorter of what
remains is merged into the longer. -/
def merge? (before? : α → α → Option Bool) (left right : List α) (patience : Nat) :
    Option (List α × Nat) := do
  let start ←
    match right with
    | [] => some left.length
    | b :: _ => stretch? false (fun a => (before? b a).map not) left
  let inner := left.drop start
  match inner.getLast? with
  | none => return (left ++ right, patience)
  | some a =>
    let final ← stretch? true (fun b => (before? b a).map not) right.reverse
    let outer := right.take (right.length - final)
    if outer.isEmpty then return (left ++ right, patience)
    let (merged, patience) ←
      if inner.length ≤ outer.length then Merge.rising? before? inner outer patience
      else Merge.falling? before? inner outer patience
    return (left.take start ++ merged ++ right.drop outer.length, patience)

/-! ### Finding runs -/

/-- Puts items, one after the other, into a run: each goes after everything it does not come
before. -/
def insertAll? (before? : α → α → Option Bool) (run : List α) : List α → Option (List α)
  | [] => some run
  | x :: rest => do
    let i ← bisect? false (fun y => (before? x y).map not) run run.length 0 run.length
    insertAll? before? (run.take i ++ x :: run.drop i) rest

/-- The items at the start of a list each of which comes before the one ahead of it, if
`falling`, or does not, otherwise; and what follows them. -/
def follow? (before? : α → α → Option Bool) (falling : Bool) (last : α) :
    List α → Option (List α × List α)
  | [] => some ([], [])
  | x :: rest => do
    if (← before? x last) = falling then
      let (run, left) ← follow? before? falling x rest
      return (x :: run, left)
    else return ([], x :: rest)

/-- The run at the start of a list, of a least length unless the list is shorter, and what
follows it. -/
def nextRun? (before? : α → α → Option Bool) (least : Nat) : List α → Option (List α × List α)
  | x :: y :: rest => do
    let falling ← before? y x
    let (more, left) ← follow? before? falling y rest
    let run := if falling then (x :: y :: more).reverse else x :: y :: more
    let lacking := least - run.length
    return (← insertAll? before? run (left.take lacking), left.drop lacking)
  | xs => some (xs, [])

/-- The least length of the runs of a list: about a power of two of them make up the list. -/
def leastRun (length : Nat) : Nat :=
  let unit := Nat.pow 2 (length.log2 - 5)
  (length + unit - 1) / unit

/-! ### Merging all runs -/

/-- How often a list has to be halved until the middles of two neighbouring runs fall into
different parts; the first run begins at `start`. -/
def power (length start first second : Nat) : Nat :=
  let middle := 2 * start + first
  let nextMiddle := middle + first + second
  let apart (n : Nat) : Bool :=
    Nat.pow 2 n * middle / length != Nat.pow 2 n * nextMiddle / length
  ((List.range (length.log2 + 2)).find? apart).getD 0 + 1

/-- A run, with the power of the place where the run after it begins. -/
structure Run (α : Type) where
  items : List α
  power : Nat

/-- Merges the last run with those before it, as long as the place where it meets them has a
greater power than the place where it ends. -/
def settle? (before? : α → α → Option Bool) (power patience : Nat) (last : List α) :
    List (Run α) → Option (List α × List (Run α) × Nat)
  | [] => some (last, [], patience)
  | r :: rest =>
    if power < r.power then do
      let (merged, patience) ← merge? before? r.items last patience
      settle? before? power patience merged rest
    else some (last, r :: rest, patience)

/-- Finds the runs of a list one after the other; `runs` are those found before `last`, the
nearest one first.  The result has the last run first. -/
def runs? (before? : α → α → Option Bool) (length : Nat) :
    Nat → Nat → List α → List (Run α) → List α → Option (List α × List (Run α) × Nat)
  | 0, patience, last, runs, _ => some (last, runs, patience)
  | _ + 1, patience, last, runs, [] => some (last, runs, patience)
  | fuel + 1, patience, last, runs, xs@(_ :: _) => do
    let (next, rest) ← nextRun? before? (leastRun length) xs
    let start := (runs.map (·.items.length)).sum
    let power := power length start last.length next.length
    let (last, runs, patience) ← settle? before? power patience last runs
    runs? before? length fuel patience next (⟨last, power⟩ :: runs) rest

/-- Merges all runs, given the last and the one before it: those two, unless the run before both
is shorter than the last. -/
def collapse? (before? : α → α → Option Bool) (patience : Nat) (last next : List α) :
    List (Run α) → Option (List α)
  | [] => (merge? before? next last patience).map (·.1)
  | r :: rest =>
    if r.items.length < last.length then do
      let (merged, patience) ← merge? before? r.items next patience
      collapse? before? patience last merged rest
    else do
      let (merged, patience) ← merge? before? next last patience
      collapse? before? patience merged r.items rest

/-- A list in order, if every two items that are compared have an order. -/
def sort? (before? : α → α → Option Bool) (xs : List α) : Option (List α) := do
  let length := xs.length
  let (first, rest) ← nextRun? before? (leastRun length) xs
  let (last, runs, patience) ← runs? before? length length worthwhile first [] rest
  match runs with
  | [] => return last
  | r :: runs => collapse? before? patience last r.items runs

end RunSort

end LiteralSplice
