/-
Merging two runs.

* **`RunSort.Precedence`**: a test that says which of two items goes first, for items of two runs
  that are in order themselves;
* **`RunSort.Going`**: the invariant of a merge that goes on, from either end;
* **`RunSort.step_ends`**: a step keeps the invariant and takes an item, or ends with a merged run;
* **`RunSort.finish?_eq`**: a merge ends with a merged run.

Design notes: a step can end early at any of several places, each time with what has been merged
so far and what is left.  `Ends` says of a computation what holds where it ends early and what
holds where it does not, so that a step is followed one part at a time.
-/
import LiteralSplice.Proofs.Searching
import Mathlib.Data.List.Perm.Basic

namespace LiteralSplice

namespace RunSort

/-! ### Computations that may end early -/

section

variable {ε β γ : Type} {E : ε → Prop} {Q : β → Prop} {Q' : γ → Prop}

/-- A computation gives a result, and what holds of it if it ends early or does not. -/
def Ends (E : ε → Prop) (Q : β → Prop) (x : ExceptT ε Option β) : Prop :=
  (∃ e, x.run = some (.error e) ∧ E e) ∨ ∃ b, x.run = some (.ok b) ∧ Q b

theorem Ends.pure {b : β} (h : Q b) : Ends E Q (Pure.pure b) := Or.inr ⟨b, rfl, h⟩

theorem Ends.throw {e : ε} (h : E e) : Ends E Q (MonadExcept.throw e) := Or.inl ⟨e, rfl, h⟩

theorem Ends.lift {x : Option β} {b : β} (hx : x = some b) (h : Q b) :
    Ends E Q (MonadLift.monadLift x : ExceptT ε Option β) := by
  subst hx
  exact Or.inr ⟨b, rfl, h⟩

theorem Ends.bind {x : ExceptT ε Option β} {f : β → ExceptT ε Option γ} (hx : Ends E Q x)
    (hf : ∀ b, Q b → Ends E Q' (f b)) : Ends E Q' (x >>= f) := by
  rcases hx with ⟨e, he, hE⟩ | ⟨b, hb, hQ⟩
  · refine Or.inl ⟨e, ?_, hE⟩
    rw [ExceptT.run_bind, he]
    rfl
  · have hrun : (x >>= f).run = (f b).run := by
      rw [ExceptT.run_bind, hb]
      rfl
    rw [Ends, hrun]
    exact hf b hQ

end

variable {α : Type} {R : α → α → Prop} {P : α → Prop} {leftFirst? : α → α → Option Bool}
  {course : Course} {m : Merge α} {items : List α} {n : Nat}

/-! ### The invariant -/

/-- The last item of one list may follow every item of another. -/
def Tops (R : α → α → Prop) (inner outer : List α) : Prop :=
  ∀ x ∈ inner.getLast?, ∀ b ∈ outer, R b x

theorem Tops.drop_inner {inner outer : List α} (h : Tops R inner outer) (n : Nat) :
    Tops R (inner.drop n) outer := by
  intro x hx
  rw [List.getLast?_drop] at hx
  split at hx
  · cases hx
  · exact h x hx

theorem Tops.drop_outer {inner outer : List α} (h : Tops R inner outer) (n : Nat) :
    Tops R inner (outer.drop n) :=
  fun x hx b hb => h x hx b (List.mem_of_mem_drop hb)

/-- A merge of `items` that goes on: what has been taken may precede what is left of both runs,
and the last item of the run that is merged into the other may follow all that is left of that. -/
structure Going (R : α → α → Prop) (course : Course) (items : List α) (m : Merge α) : Prop where
  perm : (m.taken.reverse ++ m.left ++ m.right).Perm items
  left : (m.taken.reverse ++ m.left).Pairwise R
  right : (m.taken.reverse ++ m.right).Pairwise R
  bound :
    match course with
    | .rising => Tops R m.left m.right
    | .falling => Tops R m.right m.left

/-- All items, in order. -/
def Merged (R : α → α → Prop) (items : List α) (merged : List α × Nat) : Prop :=
  merged.1.Perm items ∧ merged.1.Pairwise R

/-- How many items are left of both runs. -/
def Merge.size (m : Merge α) : Nat := m.left.length + m.right.length

theorem Going.tail_left (h : Going R course items m) : m.left.Pairwise R :=
  (List.pairwise_append.mp h.left).2.1

theorem Going.tail_right (h : Going R course items m) : m.right.Pairwise R :=
  (List.pairwise_append.mp h.right).2.1

theorem Going.with_patience (h : Going R course items m) (patience : Nat) :
    Going R course items { m with patience } :=
  ⟨h.perm, h.left, h.right, h.bound⟩

theorem Going.left_of_mem (h : Going R course items m) (hitems : ∀ x ∈ items, P x) :
    ∀ x ∈ m.left, P x := fun x hx =>
  hitems x (h.perm.subset (List.mem_append_left _ (List.mem_append_right _ hx)))

theorem Going.right_of_mem (h : Going R course items m) (hitems : ∀ x ∈ items, P x) :
    ∀ x ∈ m.right, P x := fun x hx => hitems x (h.perm.subset (List.mem_append_right _ hx))

theorem Going.takeLeft (h : Going R course items m)
    (hfirst : ∀ x ∈ m.left.take n, ∀ b ∈ m.right, R x b) :
    Going R course items (m.takeLeft n) := by
  have htaken : (m.takeLeft n).taken.reverse = m.taken.reverse ++ m.left.take n := by
    simp [Merge.takeLeft]
  have hleft : (m.takeLeft n).taken.reverse ++ (m.takeLeft n).left
      = m.taken.reverse ++ m.left := by
    rw [htaken, List.append_assoc]
    exact congrArg (m.taken.reverse ++ ·) (List.take_append_drop n m.left)
  refine ⟨?_, ?_, ?_, ?_⟩
  · rw [hleft]
    exact h.perm
  · rw [hleft]
    exact h.left
  · rw [htaken]
    obtain ⟨-, hright, hacross⟩ := List.pairwise_append.mp h.right
    have htake : (m.taken.reverse ++ m.left.take n).Pairwise R :=
      h.left.sublist ((List.take_sublist n m.left).append_left _)
    refine List.pairwise_append.mpr ⟨htake, hright, fun x hx b hb => ?_⟩
    rcases List.mem_append.mp hx with hx | hx
    · exact hacross x hx b hb
    · exact hfirst x hx b hb
  · have hbound := h.bound
    rcases course with _ | _
    · exact hbound.drop_inner n
    · exact hbound.drop_outer n

theorem Going.takeRight (h : Going R course items m)
    (hfirst : ∀ b ∈ m.right.take n, ∀ x ∈ m.left, R b x) :
    Going R course items (m.takeRight n) := by
  have htaken : (m.takeRight n).taken.reverse = m.taken.reverse ++ m.right.take n := by
    simp [Merge.takeRight]
  have hright : (m.takeRight n).taken.reverse ++ (m.takeRight n).right
      = m.taken.reverse ++ m.right := by
    rw [htaken, List.append_assoc]
    exact congrArg (m.taken.reverse ++ ·) (List.take_append_drop n m.right)
  refine ⟨?_, ?_, ?_, ?_⟩
  · -- The items taken have changed places with the left run.
    refine List.Perm.trans ?_ h.perm
    have hsplit : m.taken.reverse ++ m.left ++ m.right
        = m.taken.reverse ++ (m.left ++ m.right.take n) ++ m.right.drop n := by
      simp only [List.append_assoc, List.take_append_drop]
    rw [htaken, hsplit, List.append_assoc m.taken.reverse]
    exact (List.perm_append_comm.append_left _).append_right _
  · rw [htaken]
    obtain ⟨-, hleft, hacross⟩ := List.pairwise_append.mp h.left
    have htake : (m.taken.reverse ++ m.right.take n).Pairwise R :=
      h.right.sublist ((List.take_sublist n m.right).append_left _)
    refine List.pairwise_append.mpr ⟨htake, hleft, fun b hb x hx => ?_⟩
    rcases List.mem_append.mp hb with hb | hb
    · exact hacross b hb x hx
    · exact hfirst b hb x hx
  · rw [hright]
    exact h.right
  · have hbound := h.bound
    rcases course with _ | _
    · exact hbound.drop_outer n
    · exact hbound.drop_inner n

/-! ### Where a merge ends -/

theorem pairwise_concat {t outer : List α} {x : α} (houter : (t ++ outer).Pairwise R)
    (hx : (t ++ [x]).Pairwise R) (htop : ∀ b ∈ outer, R b x) :
    (t ++ (outer ++ [x])).Pairwise R := by
  obtain ⟨-, -, hacross⟩ := List.pairwise_append.mp hx
  rw [← List.append_assoc]
  refine List.pairwise_append.mpr ⟨houter, List.pairwise_singleton R x, fun b hb y hy => ?_⟩
  cases List.mem_singleton.mp hy
  rcases List.mem_append.mp hb with hb | hb
  · exact hacross b hb x List.mem_cons_self
  · exact htop b hb

/-- What is left when no more comparing is needed makes the merged run complete. -/
theorem Going.rest (h : Going R course items m) {rest : List α}
    (hrest : m.rest? course = some rest) : Merged R items (m.taken.reverse ++ rest, m.patience) := by
  obtain ⟨left, right, taken, patience⟩ := m
  obtain ⟨hperm, hleft, hright, hbound⟩ := h
  simp only [List.append_assoc] at hperm hleft hright hbound
  rcases course with _ | _
  · rcases left with _ | ⟨a, _ | ⟨a', left⟩⟩
    · cases hrest
      exact ⟨hperm, hright⟩
    · cases hrest
      refine ⟨(List.perm_append_comm.append_left _).trans hperm, ?_⟩
      exact pairwise_concat hright hleft (hbound a rfl)
    · rcases right with _ | ⟨b, right⟩
      · cases hrest
        exact ⟨by rwa [List.append_nil] at hperm, hleft⟩
      · cases hrest
  · rcases right with _ | ⟨b, _ | ⟨b', right⟩⟩
    · cases hrest
      exact ⟨by rwa [List.append_nil] at hperm, hleft⟩
    · cases hrest
      exact ⟨hperm, pairwise_concat hleft hright (hbound b rfl)⟩
    · rcases left with _ | ⟨a, left⟩
      · cases hrest
        exact ⟨hperm, hright⟩
      · cases hrest

theorem Going.goOn_ends (h : Going R course items m) :
    Ends (Merged R items) (· = m) (Merge.goOn course m) := by
  rw [Merge.goOn]
  rcases hrest : m.rest? course with _ | rest
  · exact Ends.pure rfl
  · exact Ends.throw (h.rest hrest)

/-- The merge is over where one of the runs is used up. -/
theorem Going.merged_of_nil (h : Going R course items m) (hnil : m.left = [] ∨ m.right = []) :
    Merged R items (m.taken.reverse ++ m.left ++ m.right, m.patience) := by
  refine ⟨h.perm, ?_⟩
  rcases hnil with hnil | hnil
  · rw [hnil, List.append_nil]
    exact h.right
  · rw [hnil, List.append_nil]
    exact h.left

/-! ### One step -/

/-- A test that tells which of two items goes first.  `R` is the order that comes of it; in runs
that are in this order, the items that go before one of the other run are at the start. -/
structure Precedence (R : α → α → Prop) (P : α → Prop) (leftFirst? : α → α → Option Bool) :
    Prop where
  trans : ∀ {x y z}, R x y → R y z → R x z
  answer : ∀ {a b}, P a → P b →
    leftFirst? a b = some true ∧ R a b ∨ leftFirst? a b = some false ∧ R b a
  left : ∀ {x y b}, P b → R x y → leftFirst? y b = some true → leftFirst? x b = some true
  right : ∀ {a x y}, P a → R x y → leftFirst? a y = some false → leftFirst? a x = some false

/-- What may precede the first of a run may precede all of it. -/
theorem Precedence.le_all (hprec : Precedence R P leftFirst?) {x b : α} {r : List α}
    (hr : (b :: r).Pairwise R) (hx : R x b) : ∀ y ∈ b :: r, R x y := by
  intro y hy
  rcases List.mem_cons.mp hy with rfl | hy
  · exact hx
  · exact hprec.trans hx (List.rel_of_pairwise_cons hr hy)

/-- The items of a left run that go before an item of the right one. -/
theorem Precedence.splits_left (hprec : Precedence R P leftFirst?) {b : α} {l : List α}
    (hb : P b) (hl : ∀ x ∈ l, P x) (hsorted : l.Pairwise R) :
    ∃ n, Splits (leftFirst? · b) l n ∧ (∀ x ∈ l.take n, R x b) ∧ ∀ x ∈ l.drop n, R b x := by
  have hanswer : ∀ x ∈ l, leftFirst? x b = some true ∨ leftFirst? x b = some false :=
    fun x hx => (hprec.answer (hl x hx) hb).imp And.left And.left
  obtain ⟨n, hn⟩ := exists_splits hanswer (hsorted.imp fun hxy => hprec.left hb hxy)
  refine ⟨n, hn, fun x hx => ?_, fun x hx => ?_⟩
  · rcases hprec.answer (hl x (List.mem_of_mem_take hx)) hb with ⟨-, hR⟩ | ⟨hfalse, -⟩
    · exact hR
    · rw [hn.passed x hx] at hfalse
      cases hfalse
  · rcases hprec.answer (hl x (List.mem_of_mem_drop hx)) hb with ⟨htrue, -⟩ | ⟨-, hR⟩
    · rw [hn.failed x hx] at htrue
      cases htrue
    · exact hR

/-- The items of a right run that go before an item of the left one. -/
theorem Precedence.splits_right (hprec : Precedence R P leftFirst?) {a : α} {r : List α}
    (ha : P a) (hr : ∀ x ∈ r, P x) (hsorted : r.Pairwise R) :
    ∃ n, Splits (fun b => (leftFirst? a b).map not) r n ∧ (∀ x ∈ r.take n, R x a) ∧
      ∀ x ∈ r.drop n, R a x := by
  have hanswer : ∀ x ∈ r, (leftFirst? a x).map not = some true ∨
      (leftFirst? a x).map not = some false := by
    intro x hx
    rcases hprec.answer ha (hr x hx) with ⟨htrue, -⟩ | ⟨hfalse, -⟩
    · exact Or.inr (by rw [htrue]; rfl)
    · exact Or.inl (by rw [hfalse]; rfl)
  -- The test is turned round, since the items that go first come from the right run.
  have hmono : r.Pairwise fun x y => (leftFirst? a y).map not = some true →
      (leftFirst? a x).map not = some true := by
    refine hsorted.imp fun hxy hy => ?_
    obtain ⟨answer, hanswer, hnot⟩ := Option.map_eq_some_iff.mp hy
    rw [hprec.right ha hxy (hanswer.trans (congrArg some (by simpa using hnot)))]
    rfl
  obtain ⟨n, hn⟩ := exists_splits hanswer hmono
  refine ⟨n, hn, fun x hx => ?_, fun x hx => ?_⟩
  · rcases hprec.answer ha (hr x (List.mem_of_mem_take hx)) with ⟨htrue, -⟩ | ⟨-, hR⟩
    · have hpassed := hn.passed x hx
      rw [htrue] at hpassed
      cases hpassed
    · exact hR
  · rcases hprec.answer ha (hr x (List.mem_of_mem_drop hx)) with ⟨-, hR⟩ | ⟨hfalse, -⟩
    · exact hR
    · have hfailed := hn.failed x hx
      rw [hfalse] at hfailed
      cases hfailed

/-- What a step leaves of a merge: it goes on, and an item has been taken. -/
def Advanced (R : α → α → Prop) (course : Course) (items : List α) (m : Merge α)
    (next : Pace × Merge α) : Prop :=
  Going R course items next.2 ∧ next.2.size < m.size

theorem single_ends (hprec : Precedence R P leftFirst?) (hitems : ∀ x ∈ items, P x)
    {a b : α} {l r taken : List α} {patience : Nat} (fromLeft fromRight : Nat)
    (h : Going R course items ⟨a :: l, b :: r, taken, patience⟩) :
    Ends (Merged R items) (Advanced R course items ⟨a :: l, b :: r, taken, patience⟩)
      (Merge.step course leftFirst? (.single fromLeft fromRight)
        ⟨a :: l, b :: r, taken, patience⟩) := by
  have ha : P a := h.left_of_mem hitems a List.mem_cons_self
  have hb : P b := h.right_of_mem hitems b List.mem_cons_self
  have hpace : ∀ (isLeft : Bool) (next : Merge α), Going R course items next →
      next.size < (a :: l).length + (b :: r).length →
      Ends (Merged R items) (Advanced R course items ⟨a :: l, b :: r, taken, patience⟩)
        (let inRow := (if isLeft then fromLeft else fromRight) + 1
         if next.patience ≤ inRow then pure (Pace.stretches true, next)
         else pure (if isLeft then Pace.single inRow 0 else Pace.single 0 inRow, next)) := by
    intro isLeft next hnext hsize
    dsimp only
    by_cases hpatience : next.patience ≤ (if isLeft then fromLeft else fromRight) + 1
    · rw [if_pos hpatience]
      exact Ends.pure ⟨hnext, hsize⟩
    · rw [if_neg hpatience]
      exact Ends.pure ⟨hnext, hsize⟩
  rw [Merge.step]
  rcases hprec.answer ha hb with ⟨htrue, hR⟩ | ⟨hfalse, hR⟩
  · have htaken := h.takeLeft (n := 1) fun x hx y hy => by
      cases List.mem_singleton.mp hx
      exact hprec.le_all h.tail_right hR y hy
    refine Ends.bind (Ends.lift htrue rfl) ?_
    rintro _ rfl
    refine Ends.bind htaken.goOn_ends ?_
    rintro _ rfl
    refine hpace true _ htaken ?_
    simp [Merge.size, Merge.takeLeft]
  · have htaken := h.takeRight (n := 1) fun y hy x hx => by
      cases List.mem_singleton.mp hy
      exact hprec.le_all h.tail_left hR x hx
    refine Ends.bind (Ends.lift hfalse rfl) ?_
    rintro _ rfl
    refine Ends.bind htaken.goOn_ends ?_
    rintro _ rfl
    refine hpace false _ htaken ?_
    simp [Merge.size, Merge.takeRight]

/-- A stretch of the left run goes first, and the item of the right run that ends it. -/
theorem Going.left_stretch (h : Going R course items m) (hprec : Precedence R P leftFirst?)
    (hitems : ∀ x ∈ items, P x) {b : α} {r : List α} (hright : m.right = b :: r) :
    ∃ n, Splits (leftFirst? · b) m.left n ∧ Going R course items (m.takeLeft n) ∧
      Going R course items ((m.takeLeft n).takeRight 1) := by
  have hb : P b := h.right_of_mem hitems b (by rw [hright]; exact List.mem_cons_self)
  have hsorted := h.tail_right
  rw [hright] at hsorted
  obtain ⟨n, hn, htake, hdrop⟩ := hprec.splits_left hb (h.left_of_mem hitems) h.tail_left
  have hstretch : Going R course items (m.takeLeft n) := by
    refine h.takeLeft fun x hx => ?_
    rw [hright]
    exact hprec.le_all hsorted (htake x hx)
  refine ⟨n, hn, hstretch, hstretch.takeRight fun y hy => ?_⟩
  have hy' : y ∈ (b :: r).take 1 := hright ▸ hy
  cases List.mem_singleton.mp hy'
  exact hdrop

/-- A stretch of the right run goes first, and the item of the left run that ends it. -/
theorem Going.right_stretch (h : Going R course items m) (hprec : Precedence R P leftFirst?)
    (hitems : ∀ x ∈ items, P x) {a : α} {l : List α} (hleft : m.left = a :: l) :
    ∃ n, Splits (fun b => (leftFirst? a b).map not) m.right n ∧
      Going R course items (m.takeRight n) ∧
      Going R course items ((m.takeRight n).takeLeft 1) := by
  have ha : P a := h.left_of_mem hitems a (by rw [hleft]; exact List.mem_cons_self)
  have hsorted := h.tail_left
  rw [hleft] at hsorted
  obtain ⟨n, hn, htake, hdrop⟩ := hprec.splits_right ha (h.right_of_mem hitems) h.tail_right
  have hstretch : Going R course items (m.takeRight n) := by
    refine h.takeRight fun y hy => ?_
    rw [hleft]
    exact hprec.le_all hsorted (htake y hy)
  refine ⟨n, hn, hstretch, hstretch.takeLeft fun x hx => ?_⟩
  have hx' : x ∈ (a :: l).take 1 := hleft ▸ hx
  cases List.mem_singleton.mp hx'
  exact hdrop

/-- The end of a step by stretches: what is taken there leaves even less than there was. -/
theorem last_stretch_ends {m' : Merge α} (fromLeft : Nat)
    (h : Going R course items (m.takeRight n))
    (h' : Going R course items ((m.takeRight n).takeLeft 1)) (hsize : m.size < m'.size) :
    Ends (Merged R items) (Advanced R course items m') (do
      let m ← Merge.goOn course (m.takeRight n)
      let m ← Merge.goOn course (m.takeLeft 1)
      if worthwhile ≤ fromLeft ∨ worthwhile ≤ n then pure (Pace.stretches false, m)
      else pure (Pace.single 0 0, { m with patience := m.patience + 1 })) := by
  have hsize' : ((m.takeRight n).takeLeft 1).size < m'.size := by
    refine Nat.lt_of_le_of_lt ?_ hsize
    simp only [Merge.size, Merge.takeRight, Merge.takeLeft, List.length_drop]
    omega
  refine Ends.bind h.goOn_ends ?_
  rintro _ rfl
  refine Ends.bind h'.goOn_ends ?_
  rintro _ rfl
  split
  · exact Ends.pure ⟨h', hsize'⟩
  · exact Ends.pure ⟨h'.with_patience _, hsize'⟩

theorem stretches_ends (hprec : Precedence R P leftFirst?) (hitems : ∀ x ∈ items, P x)
    {a b : α} {l r taken : List α} {patience : Nat} (first : Bool)
    (h : Going R course items ⟨a :: l, b :: r, taken, patience⟩) :
    Ends (Merged R items) (Advanced R course items ⟨a :: l, b :: r, taken, patience⟩)
      (Merge.step course leftFirst? (.stretches first) ⟨a :: l, b :: r, taken, patience⟩) := by
  rw [Merge.step]
  -- Patience aside, the merge begins as it was.
  obtain ⟨m₀, hm₀, h₀, hleft₀, hright₀⟩ : ∃ m₀ : Merge α,
      (if first = true ∨ patience ≤ 1 then ⟨a :: l, b :: r, taken, patience⟩
        else ⟨a :: l, b :: r, taken, patience - 1⟩) = m₀ ∧ Going R course items m₀ ∧
      m₀.left = a :: l ∧ m₀.right = b :: r := by
    refine ⟨_, rfl, ?_⟩
    split
    · exact ⟨h, rfl, rfl⟩
    · exact ⟨h.with_patience _, rfl, rfl⟩
  dsimp only
  rw [hm₀]
  obtain ⟨n, hn, h₁, h₂⟩ := h₀.left_stretch hprec hitems hright₀
  refine Ends.bind (Ends.lift (stretch?_eq _ hn) rfl) ?_
  rintro _ rfl
  refine Ends.bind h₁.goOn_ends ?_
  rintro _ rfl
  refine Ends.bind h₂.goOn_ends ?_
  rintro _ rfl
  generalize hm₂ : (m₀.takeLeft n).takeRight 1 = m₂ at h₂ ⊢
  have hsize₂ : m₂.size < (a :: l).length + (b :: r).length := by
    simp only [← hm₂, Merge.size, Merge.takeRight, Merge.takeLeft, hleft₀, hright₀,
      List.length_drop, List.length_cons]
    omega
  rcases hleft₂ : m₂.left with _ | ⟨a', l'⟩
  · -- Of the left run nothing is left, so nothing of the right one has to go before it.
    have h₃ : Going R course items (m₂.takeRight 0) :=
      h₂.takeRight fun y hy => absurd hy List.not_mem_nil
    have h₄ : Going R course items ((m₂.takeRight 0).takeLeft 1) := by
      refine h₃.takeLeft fun x hx => ?_
      rw [Merge.takeRight, hleft₂] at hx
      cases hx
    refine Ends.bind (Ends.pure (b := 0) rfl) ?_
    rintro _ rfl
    exact last_stretch_ends n h₃ h₄ hsize₂
  · obtain ⟨n', hn', h₃, h₄⟩ := h₂.right_stretch hprec hitems hleft₂
    refine Ends.bind (Ends.lift (stretch?_eq _ hn') rfl) ?_
    rintro _ rfl
    exact last_stretch_ends n h₃ h₄ hsize₂

/-- A step keeps the invariant and takes an item, or ends with the merged run. -/
theorem step_ends (hprec : Precedence R P leftFirst?) (hitems : ∀ x ∈ items, P x) (pace : Pace)
    (h : Going R course items m) :
    Ends (Merged R items) (Advanced R course items m) (Merge.step course leftFirst? pace m) := by
  obtain ⟨left, right, taken, patience⟩ := m
  rcases left with _ | ⟨a, l⟩
  · rw [Merge.step.eq_def]
    exact Ends.throw (h.merged_of_nil (Or.inl rfl))
  rcases right with _ | ⟨b, r⟩
  · rw [Merge.step.eq_def]
    exact Ends.throw (h.merged_of_nil (Or.inr rfl))
  rcases pace with ⟨fromLeft, fromRight⟩ | first
  · exact single_ends hprec hitems fromLeft fromRight h
  · exact stretches_ends hprec hitems first h

/-- A merge ends with the merged run, if it may take a step for every item. -/
theorem finish?_eq (hprec : Precedence R P leftFirst?) (hitems : ∀ x ∈ items, P x) {fuel : Nat}
    (pace : Pace) (h : Going R course items m) (hfuel : m.size ≤ fuel) :
    ∃ merged, Merge.finish? course leftFirst? fuel pace m = some merged ∧ Merged R items merged := by
  induction fuel generalizing pace m with
  | zero =>
    refine ⟨_, rfl, h.merged_of_nil (Or.inl ?_)⟩
    rw [Merge.size] at hfuel
    exact List.eq_nil_of_length_eq_zero (by omega)
  | succ fuel ih =>
    rcases step_ends hprec hitems pace h with
      ⟨merged, hrun, hmerged⟩ | ⟨⟨pace', m'⟩, hrun, hgoing, hsize⟩
    · exact ⟨merged, by rw [Merge.finish?, hrun], hmerged⟩
    · obtain ⟨merged, hfinish, hmerged⟩ := ih pace' hgoing (by omega)
      exact ⟨merged, by rw [Merge.finish?, hrun]; exact hfinish, hmerged⟩

end RunSort

end LiteralSplice
