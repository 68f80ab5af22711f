/-
Searching a list for the place where a test stops to hold.

* **`RunSort.Splits`**: a test holds of the first items of a list, and of none after them;
* **`RunSort.exists_splits`**: there is such a place if what comes before an item that passes
  passes too;
* **`RunSort.bisect?_eq`**, **`RunSort.stretch?_eq`**: both searches find that place.
-/
import LiteralSplice.RunSort

namespace LiteralSplice

namespace RunSort

variable {α : Type} {passes : α → Option Bool} {xs : List α} {n : Nat}

/-- A test holds of the first `n` items, and of none after them. -/
structure Splits (passes : α → Option Bool) (xs : List α) (n : Nat) : Prop where
  le_length : n ≤ xs.length
  passed : ∀ x ∈ xs.take n, passes x = some true
  failed : ∀ x ∈ xs.drop n, passes x = some false

theorem Splits.getElem_lt (h : Splits passes xs n) {i : Nat} (hi : i < n) {x : α}
    (hx : xs[i]? = some x) : passes x = some true := by
  refine h.passed x (List.mem_of_getElem? (i := i) ?_)
  rw [List.getElem?_take_of_lt hi, hx]

theorem Splits.getElem_ge (h : Splits passes xs n) {i : Nat} (hi : n ≤ i) {x : α}
    (hx : xs[i]? = some x) : passes x = some false := by
  refine h.failed x (List.mem_of_getElem? (i := i - n) ?_)
  rw [List.getElem?_drop, Nat.add_sub_cancel' hi, hx]

/-- A test that every item before a passing one passes has a place where it stops to hold. -/
theorem exists_splits (hanswer : ∀ x ∈ xs, passes x = some true ∨ passes x = some false)
    (hmono : xs.Pairwise fun x y => passes y = some true → passes x = some true) :
    ∃ n, Splits passes xs n := by
  induction xs with
  | nil => exact ⟨0, Nat.le_refl 0, nofun, nofun⟩
  | cons x rest ih =>
    obtain ⟨hfirst, hrest⟩ := List.pairwise_cons.mp hmono
    rcases hanswer x List.mem_cons_self with hx | hx
    · obtain ⟨n, hn⟩ := ih (fun y hy => hanswer y (List.mem_cons_of_mem x hy)) hrest
      refine ⟨n + 1, Nat.succ_le_succ hn.le_length, fun y hy => ?_, hn.failed⟩
      rcases List.mem_cons.mp hy with rfl | hy
      · exact hx
      · exact hn.passed y hy
    · refine ⟨0, Nat.zero_le _, nofun, fun y hy => ?_⟩
      rcases List.mem_cons.mp hy with rfl | hmem
      · exact hx
      · -- An item that passes here would make the first one pass.
        rcases hanswer y hy with htrue | hfalse
        · rw [hfirst y hmem htrue] at hx
          cases hx
        · exact hfalse

/-- A search between two bounds finds the place, if it is between them. -/
theorem bisect?_eq (roundUp : Bool) (h : Splits passes xs n) {fuel least greatest : Nat}
    (hleast : least ≤ n) (hgreatest : n ≤ greatest) (hlength : greatest ≤ xs.length)
    (hfuel : greatest - least ≤ fuel) : bisect? roundUp passes xs fuel least greatest = some n := by
  induction fuel generalizing least greatest with
  | zero =>
    rw [bisect?]
    congr
    omega
  | succ fuel ih =>
    rw [bisect?]
    by_cases hdone : greatest ≤ least
    · rw [if_pos hdone]
      congr
      omega
    rw [if_neg hdone]
    -- Whichever way the middle is rounded, it lies between the bounds.
    obtain ⟨middle, hmiddle, hge, hlt⟩ : ∃ middle,
        (if roundUp then greatest - 1 - (greatest - least) / 2 else least + (greatest - least) / 2)
          = middle ∧ least ≤ middle ∧ middle < greatest := by
      refine ⟨_, rfl, ?_⟩
      split <;> omega
    have hx : xs[middle]? = some xs[middle] :=
      List.getElem?_eq_getElem (Nat.lt_of_lt_of_le hlt hlength)
    simp only [hmiddle, hx]
    by_cases hn : middle < n
    · rw [h.getElem_lt hn hx]
      exact ih (by omega) hgreatest hlength (by omega)
    · rw [h.getElem_ge (Nat.not_lt.mp hn) hx]
      exact ih hleast (by omega) (by omega) (by omega)

/-- Steps of growing length end with the place between the bounds. -/
theorem bracket?_eq (h : Splits passes xs n) (fuel : Nat) {last next : Nat} (hlast : last < n)
    (hnext : last < next) :
    ∃ least greatest, bracket? passes xs fuel last next = some (least, greatest) ∧
      least ≤ n ∧ n ≤ greatest ∧ greatest ≤ xs.length := by
  induction fuel generalizing last next with
  | zero => exact ⟨last + 1, xs.length, rfl, hlast, h.le_length, Nat.le_refl _⟩
  | succ fuel ih =>
    rw [bracket?]
    rcases hx : xs[next]? with _ | x
    · exact ⟨last + 1, xs.length, rfl, hlast, h.le_length, Nat.le_refl _⟩
    by_cases hn : next < n
    · simp only [h.getElem_lt hn hx]
      exact ih hn (by omega)
    · simp only [h.getElem_ge (Nat.not_lt.mp hn) hx]
      obtain ⟨hlt, -⟩ := List.getElem?_eq_some_iff.mp hx
      exact ⟨last + 1, next, rfl, hlast, Nat.not_lt.mp hn, Nat.le_of_lt hlt⟩

/-- The place is found in steps of growing length. -/
theorem stretch?_eq (roundUp : Bool) (h : Splits passes xs n) :
    stretch? roundUp passes xs = some n := by
  rcases xs with _ | ⟨x, rest⟩
  · exact congrArg some (Nat.le_zero.mp h.le_length).symm
  rw [stretch?]
  by_cases hn : 0 < n
  · obtain ⟨least, greatest, hbracket, hleast, hgreatest, hlength⟩ :=
      bracket?_eq h (x :: rest).length hn Nat.zero_lt_one
    simp only [h.getElem_lt hn (i := 0) rfl, hbracket]
    exact bisect?_eq roundUp h hleast hgreatest hlength (by omega)
  · simp only [h.getElem_ge (Nat.not_lt.mp hn) (i := 0) rfl]
    exact congrArg some (Nat.eq_zero_of_not_pos hn).symm

end RunSort

end LiteralSplice
