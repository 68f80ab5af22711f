/-
A list put in order by its runs.

* **`RunSort.Orders`**: a comparison that is an order of the items that are compared;
* **`RunSort.merge?_eq`**: two runs in order become one;
* **`RunSort.sort?_eq`**: the list that comes out is in order, and has the items that went in.
-/
import LiteralSplice.Proofs.Merges

namespace LiteralSplice

namespace RunSort

variable {α : Type} {before? : α → α → Option Bool} {P : α → Prop}

/-- A comparison that is an order of the items with a property: of two such items the one comes
before the other or it does not, and what comes before none of the items ahead of it stays where
it is. -/
structure Orders (before? : α → α → Option Bool) (P : α → Prop) : Prop where
  total : ∀ {a b}, P a → P b →
    before? a b = some false ∨ before? a b = some true ∧ before? b a = some false
  trans : ∀ {a b c}, P a → P b → P c → before? b a = some false → before? c b = some false →
    before? c a = some false

/-- An item may stand ahead of another. -/
def Ahead (before? : α → α → Option Bool) (P : α → Prop) (a b : α) : Prop :=
  P a ∧ P b ∧ before? b a = some false

/-- Items with a property, none of which comes before one ahead of it. -/
structure Ordered (before? : α → α → Option Bool) (P : α → Prop) (xs : List α) : Prop where
  all : ∀ x ∈ xs, P x
  pairwise : xs.Pairwise (Ahead before? P)

/-- Items merged between those that are in place already, at the start of the left run and at the
end of the right one. -/
theorem merged_between {R : α → α → Prop} {start inner outer final : List α}
    {merged : List α × Nat} (hleft : (start ++ inner).Pairwise R)
    (hright : (outer ++ final).Pairwise R) (hstart : ∀ x ∈ start, ∀ y ∈ outer ++ final, R x y)
    (hfinal : ∀ y ∈ final, ∀ x ∈ start ++ inner, R x y)
    (hmerged : Merged R (inner ++ outer) merged) :
    Merged R (start ++ inner ++ (outer ++ final)) (start ++ merged.1 ++ final, merged.2) := by
  obtain ⟨hperm, hpairwise⟩ := hmerged
  obtain ⟨hsorted, -, hstart'⟩ := List.pairwise_append.mp hleft
  obtain ⟨-, hsorted', hfinal'⟩ := List.pairwise_append.mp hright
  refine ⟨?_, List.pairwise_append.mpr ⟨List.pairwise_append.mpr ⟨hsorted, hpairwise, ?_⟩,
    hsorted', ?_⟩⟩
  · have hsplit : start ++ inner ++ (outer ++ final) = start ++ (inner ++ outer) ++ final := by
      simp only [List.append_assoc]
    rw [hsplit]
    exact (hperm.append_left start).append_right final
  · intro x hx y hy
    rcases List.mem_append.mp (hperm.subset hy) with hy | hy
    · exact hstart' x hx y hy
    · exact hstart x hx y (List.mem_append_left _ hy)
  · intro x hx y hy
    rcases List.mem_append.mp hx with hx | hx
    · exact hstart x hx y (List.mem_append_right _ hy)
    · rcases List.mem_append.mp (hperm.subset hx) with hx | hx
      · exact hfinal y hy x (List.mem_append_right _ hx)
      · exact hfinal' x hx y hy

theorem eq_or_rel_getLast {R : α → α → Prop} {xs : List α} {a : α} (hxs : xs.Pairwise R)
    (ha : xs.getLast? = some a) : ∀ x ∈ xs, x = a ∨ R x a := by
  obtain ⟨ys, rfl⟩ := List.getLast?_eq_some_iff.mp ha
  obtain ⟨-, -, hacross⟩ := List.pairwise_append.mp hxs
  intro x hx
  rcases List.mem_append.mp hx with hx | hx
  · exact Or.inr (hacross x hx a List.mem_cons_self)
  · exact Or.inl (List.mem_singleton.mp hx)

/-- A run stays in order with an item put in behind what may stand ahead of it. -/
theorem Ordered.put {run : List α} {x : α} {n : Nat} (hrun : Ordered before? P run) (hx : P x)
    (htake : ∀ y ∈ run.take n, Ahead before? P y x)
    (hdrop : ∀ y ∈ run.drop n, Ahead before? P x y) :
    Ordered before? P (run.take n ++ x :: run.drop n) := by
  constructor
  · intro y hy
    rcases List.mem_append.mp hy with hy | hy
    · exact hrun.all y (List.mem_of_mem_take hy)
    · rcases List.mem_cons.mp hy with rfl | hy
      · exact hx
      · exact hrun.all y (List.mem_of_mem_drop hy)
  · have hpairwise := hrun.pairwise
    rw [← List.take_append_drop n run] at hpairwise
    obtain ⟨hbefore, hafter, hacross⟩ := List.pairwise_append.mp hpairwise
    refine List.pairwise_append.mpr ⟨hbefore, List.pairwise_cons.mpr ⟨hdrop, hafter⟩, ?_⟩
    intro y hy z hz
    rcases List.mem_cons.mp hz with rfl | hz
    · exact htake y hy
    · exact hacross y hy z hz

theorem Merged.ordered {items : List α} {merged : List α × Nat} (hitems : ∀ x ∈ items, P x)
    (h : Merged (Ahead before? P) items merged) : Ordered before? P merged.1 :=
  ⟨fun x hx => hitems x (h.1.subset hx), h.2⟩

section

variable (horders : Orders before? P)
include horders

theorem Orders.ahead_trans {a b c : α} (hab : Ahead before? P a b) (hbc : Ahead before? P b c) :
    Ahead before? P a c :=
  ⟨hab.1, hbc.2.1, horders.trans hab.1 hab.2.1 hbc.2.1 hab.2.2 hbc.2.2⟩

/-- Of two items, the one comes before the other and may stand ahead of it, or the other may. -/
theorem Orders.ahead {a b : α} (ha : P a) (hb : P b) :
    before? b a = some false ∧ Ahead before? P a b ∨
      before? b a = some true ∧ Ahead before? P b a := by
  rcases horders.total hb ha with hfalse | ⟨htrue, hfalse⟩
  · exact Or.inl ⟨hfalse, ha, hb, hfalse⟩
  · exact Or.inr ⟨htrue, hb, ha, hfalse⟩

/-- Merging from the start, an item of the left run goes first unless that of the right one comes
before it. -/
theorem Orders.precedence_rising :
    Precedence (Ahead before? P) P fun a b => (before? b a).map not where
  trans hxy hyz := horders.ahead_trans hxy hyz
  answer ha hb := by
    rcases horders.ahead ha hb with ⟨h, hahead⟩ | ⟨h, hahead⟩
    · exact Or.inl ⟨by rw [h]; rfl, hahead⟩
    · exact Or.inr ⟨by rw [h]; rfl, hahead⟩
  left {x y b} hb hxy hy := by
    rcases horders.ahead hxy.2.1 hb with ⟨h, hahead⟩ | ⟨h, -⟩
    · rw [(horders.ahead_trans hxy hahead).2.2]
      rfl
    · rw [h] at hy
      cases hy
  right {a x y} ha hxy hy := by
    rcases horders.ahead ha hxy.1 with ⟨-, hahead⟩ | ⟨h, -⟩
    · rw [(horders.ahead_trans hahead hxy).2.2] at hy
      cases hy
    · rw [h]
      rfl

/-- Merging from the end, an item of the left run goes first if that of the right one comes
before it. -/
theorem Orders.precedence_falling :
    Precedence (fun a b => Ahead before? P b a) P fun a b => before? b a where
  trans hxy hyz := horders.ahead_trans hyz hxy
  answer ha hb := by
    rcases horders.ahead ha hb with ⟨h, hahead⟩ | ⟨h, hahead⟩
    · exact Or.inr ⟨h, hahead⟩
    · exact Or.inl ⟨h, hahead⟩
  left {x y b} hb hxy hy := by
    rcases horders.ahead hxy.2.1 hb with ⟨h, hahead⟩ | ⟨h, -⟩
    · rw [(horders.ahead_trans hxy hahead).2.2] at hy
      cases hy
    · exact h
  right ha hxy hy := (horders.ahead_trans ⟨ha, hxy.1, hy⟩ hxy).2.2

/-! ### Merging two runs -/

variable {left right : List α} (patience : Nat)

/-- Two runs are merged from the start, if the first item of all comes from the right run and the
last from the left one. -/
theorem Orders.rising?_eq (hleft : Ordered before? P left) (hright : Ordered before? P right)
    (hfirst : ∀ b ∈ right.head?, ∀ a ∈ left, Ahead before? P b a)
    (hlast : Tops (Ahead before? P) left right) :
    ∃ merged, Merge.rising? before? left right patience = some merged ∧
      Merged (Ahead before? P) (left ++ right) merged := by
  have hstart : Going (Ahead before? P) .rising (left ++ right) ⟨left, right, [], patience⟩ :=
    ⟨List.Perm.refl _, hleft.pairwise, hright.pairwise, hlast⟩
  have hgoing := hstart.takeRight (n := 1) fun b hb a ha => by
    rcases right with _ | ⟨b', r⟩
    · cases hb
    · cases List.mem_singleton.mp hb
      exact hfirst b rfl a ha
  have hm : (⟨left, right.drop 1, right.take 1, patience⟩ : Merge α)
      = Merge.takeRight ⟨left, right, [], patience⟩ 1 := by
    rcases right with _ | ⟨b, r⟩ <;> rfl
  have hitems : ∀ x ∈ left ++ right, P x := by
    intro x hx
    exact (List.mem_append.mp hx).elim (hleft.all x) (hright.all x)
  rw [Merge.rising?, hm]
  rcases hrest : (Merge.takeRight ⟨left, right, [], patience⟩ 1).rest? .rising with _ | rest
  · refine finish?_eq horders.precedence_rising hitems _ hgoing ?_
    simp [Merge.size, Merge.takeRight]
  · exact ⟨_, rfl, hgoing.rest hrest⟩

/-- Two runs are merged from the end, if the first item of all comes from the right run and the
last from the left one. -/
theorem Orders.falling?_eq (hleft : Ordered before? P left) (hright : Ordered before? P right)
    (hfirst : ∀ b ∈ right.head?, ∀ a ∈ left, Ahead before? P b a)
    (hlast : Tops (Ahead before? P) left right) :
    ∃ merged, Merge.falling? before? left right patience = some merged ∧
      Merged (Ahead before? P) (left ++ right) merged := by
  have hstart : Going (fun a b => Ahead before? P b a) .falling (left ++ right)
      ⟨left.reverse, right.reverse, [], patience⟩ := by
    refine ⟨?_, ?_, ?_, ?_⟩
    · exact (List.reverse_perm left).append (List.reverse_perm right)
    · exact List.pairwise_reverse.mpr hleft.pairwise
    · exact List.pairwise_reverse.mpr hright.pairwise
    · intro b hb a ha
      rw [List.getLast?_reverse] at hb
      exact hfirst b hb a (List.mem_reverse.mp ha)
  have hgoing := hstart.takeLeft (n := 1) fun a ha b hb => by
    refine hlast a ?_ b (List.mem_reverse.mp hb)
    have ha' : a ∈ left.reverse.take 1 := ha
    rw [← List.head?_reverse]
    rcases hreverse : left.reverse with _ | ⟨a', l⟩
    · rw [hreverse] at ha'
      cases ha'
    · rw [hreverse] at ha'
      cases List.mem_singleton.mp ha'
      rfl
  have hm : (⟨left.reverse.drop 1, right.reverse, left.reverse.take 1, patience⟩ : Merge α)
      = Merge.takeLeft ⟨left.reverse, right.reverse, [], patience⟩ 1 := by
    rcases left.reverse with _ | ⟨a, l⟩ <;> rfl
  have hitems : ∀ x ∈ left ++ right, P x := by
    intro x hx
    exact (List.mem_append.mp hx).elim (hleft.all x) (hright.all x)
  -- The merged run comes out with its last item first.
  have hturned : ∀ merged, Merged (fun a b => Ahead before? P b a) (left ++ right) merged →
      Merged (Ahead before? P) (left ++ right) (merged.1.reverse, merged.2) :=
    fun merged h => ⟨(List.reverse_perm _).trans h.1, List.pairwise_reverse.mpr h.2⟩
  rw [Merge.falling?, hm]
  dsimp only
  rcases hrest : (Merge.takeLeft ⟨left.reverse, right.reverse, [], patience⟩ 1).rest? .falling
    with _ | rest
  · have hsize : (Merge.takeLeft ⟨left.reverse, right.reverse, [], patience⟩ 1).size
        ≤ left.length + right.length := by
      simp [Merge.size, Merge.takeLeft]
    obtain ⟨merged, hfinish, hmerged⟩ :=
      finish?_eq horders.precedence_falling hitems (.single 0 0) hgoing hsize
    exact ⟨_, by rw [hfinish]; rfl, hturned merged hmerged⟩
  · exact ⟨_, rfl, hturned _ (hgoing.rest hrest)⟩

/-- Whatever comes next, it goes on from the two runs merged, the shorter into the longer. -/
theorem Orders.shorter?_bind (hleft : Ordered before? P left) (hright : Ordered before? P right)
    (hfirst : ∀ b ∈ right.head?, ∀ a ∈ left, Ahead before? P b a)
    (hlast : Tops (Ahead before? P) left right) :
    ∃ merged, Merged (Ahead before? P) (left ++ right) merged ∧
      ∀ next : List α × Nat → Option (List α × Nat),
        (if left.length ≤ right.length then (Merge.rising? before? left right patience).bind next
          else (Merge.falling? before? left right patience).bind next) = next merged := by
  by_cases hshort : left.length ≤ right.length
  · obtain ⟨merged, hrun, hmerged⟩ := horders.rising?_eq patience hleft hright hfirst hlast
    exact ⟨merged, hmerged, fun next => by rw [if_pos hshort, hrun, Option.bind_some]⟩
  · obtain ⟨merged, hrun, hmerged⟩ := horders.falling?_eq patience hleft hright hfirst hlast
    exact ⟨merged, hmerged, fun next => by rw [if_neg hshort, hrun, Option.bind_some]⟩

/-- The items at the start of the left run that are in place already. -/
theorem Orders.start?_eq {b : α} {r : List α} (hleft : Ordered before? P left)
    (hright : Ordered before? P (b :: r)) :
    ∃ n, stretch? false (fun a => (before? b a).map not) left = some n ∧
      (∀ x ∈ left.take n, ∀ y ∈ b :: r, Ahead before? P x y) ∧
      ∀ x ∈ left.drop n, Ahead before? P b x := by
  obtain ⟨n, hn, htake, hdrop⟩ := horders.precedence_rising.splits_left
    (hright.all b List.mem_cons_self) hleft.all hleft.pairwise
  refine ⟨n, stretch?_eq false hn, fun x hx => ?_, hdrop⟩
  exact horders.precedence_rising.le_all hright.pairwise (htake x hx)

/-- The items at the end of the right run that are in place already. -/
theorem Orders.final?_eq {a : α} (hleft : Ordered before? P left)
    (hright : Ordered before? P right) (hlast : left.getLast? = some a) :
    ∃ k, stretch? true (fun b => (before? b a).map not) right.reverse = some k ∧
      (∀ y ∈ right.drop (right.length - k), ∀ x ∈ left, Ahead before? P x y) ∧
      ∀ y ∈ right.take (right.length - k), Ahead before? P y a := by
  obtain ⟨k, hk, htake, hdrop⟩ := horders.precedence_falling.splits_right
    (hleft.all a (List.mem_of_getLast? hlast)) (fun x hx => hright.all x (List.mem_reverse.mp hx))
    (List.pairwise_reverse.mpr hright.pairwise)
  rw [List.take_reverse] at htake
  rw [List.drop_reverse] at hdrop
  refine ⟨k, stretch?_eq true hk, fun y hy x hx => ?_, fun y hy => ?_⟩
  · have hay := htake y (List.mem_reverse.mpr hy)
    rcases eq_or_rel_getLast hleft.pairwise hlast x hx with rfl | hxa
    · exact hay
    · exact horders.ahead_trans hxa hay
  · exact hdrop y (List.mem_reverse.mpr hy)

/-- Two runs in order become one. -/
theorem Orders.merge?_eq (hleft : Ordered before? P left) (hright : Ordered before? P right) :
    ∃ merged, merge? before? left right patience = some merged ∧
      Merged (Ahead before? P) (left ++ right) merged := by
  rcases right with _ | ⟨b, r⟩
  · refine ⟨(left ++ [], patience), ?_, List.Perm.refl _, ?_⟩
    · simp [merge?]
    · rw [List.append_nil]
      exact hleft.pairwise
  obtain ⟨n, hn, hstart, hdrop⟩ := horders.start?_eq hleft hright
  rw [merge?]
  simp only [hn, Option.bind_eq_bind, Option.bind_some]
  rcases hlast : (left.drop n).getLast? with _ | a
  · -- The left run is in place as a whole.
    refine ⟨_, rfl, List.Perm.refl _, List.pairwise_append.mpr ⟨hleft.pairwise, hright.pairwise, ?_⟩⟩
    have hall : left.take n = left := by
      refine List.take_of_length_le ?_
      exact List.drop_eq_nil_iff.mp (List.getLast?_eq_none_iff.mp hlast)
    rwa [hall] at hstart
  -- The last item of the left run stays behind the rest of it.
  have hlast' : left.getLast? = some a := by
    have hdropped := hlast
    rw [List.getLast?_drop] at hdropped
    split at hdropped
    · cases hdropped
    · exact hdropped
  obtain ⟨k, hk, hfinal, htake⟩ := horders.final?_eq hleft hright hlast'
  simp only [hk, Option.bind_some]
  generalize (b :: r).length - k = j at hfinal htake ⊢
  by_cases hempty : ((b :: r).take j).isEmpty = true
  · -- The right run is in place as a whole.
    rw [if_pos hempty]
    refine ⟨_, rfl, List.Perm.refl _, List.pairwise_append.mpr ⟨hleft.pairwise, hright.pairwise,
      fun x hx y hy => ?_⟩⟩
    rw [← List.take_append_drop j (b :: r), List.isEmpty_iff.mp hempty, List.nil_append] at hy
    exact hfinal y hy x hx
  rw [if_neg hempty]
  have hinner : Ordered before? P (left.drop n) :=
    ⟨fun x hx => hleft.all x (List.mem_of_mem_drop hx), hleft.pairwise.drop⟩
  have houter : Ordered before? P ((b :: r).take j) :=
    ⟨fun x hx => hright.all x (List.mem_of_mem_take hx), hright.pairwise.take⟩
  have hfirst : ∀ y ∈ ((b :: r).take j).head?, ∀ x ∈ left.drop n, Ahead before? P y x := by
    intro y hy
    rcases j with _ | j
    · cases hy
    · cases hy
      exact hdrop
  have htop : Tops (Ahead before? P) (left.drop n) ((b :: r).take j) := by
    intro x hx y hy
    cases hlast.symm.trans hx
    exact htake y hy
  obtain ⟨merged, hmerged, hrun⟩ := horders.shorter?_bind patience hinner houter hfirst htop
  have hlength : (b :: r).drop ((b :: r).take j).length = (b :: r).drop j := by
    rcases Nat.le_total j (b :: r).length with hj | hj
    · rw [List.length_take_of_le hj]
    · rw [List.take_of_length_le hj, List.drop_length, List.drop_of_length_le hj]
  refine ⟨_, by rw [hrun, hlength]; rfl, ?_⟩
  have hleft' := hleft.pairwise
  have hright' := hright.pairwise
  rw [← List.take_append_drop n left] at hleft' hfinal
  rw [← List.take_append_drop j (b :: r)] at hright' hstart
  have hresult := merged_between hleft' hright' hstart hfinal hmerged
  rwa [List.take_append_drop, List.take_append_drop] at hresult

/-! ### Finding runs -/

/-- Each item that is put into a run finds its place. -/
theorem Orders.insertAll?_eq {run xs : List α} (hrun : Ordered before? P run)
    (hxs : ∀ x ∈ xs, P x) :
    ∃ run', insertAll? before? run xs = some run' ∧ Ordered before? P run' ∧
      run'.Perm (run ++ xs) := by
  induction xs generalizing run with
  | nil => exact ⟨run, rfl, hrun, by rw [List.append_nil]⟩
  | cons x rest ih =>
    have hx := hxs x List.mem_cons_self
    obtain ⟨n, hn, htake, hdrop⟩ :=
      horders.precedence_rising.splits_left hx hrun.all hrun.pairwise
    obtain ⟨run', hinsert, hordered, hperm⟩ :=
      ih (hrun.put hx htake hdrop) fun y hy => hxs y (List.mem_cons_of_mem x hy)
    refine ⟨run', ?_, hordered, hperm.trans ?_⟩
    · rw [insertAll?, bisect?_eq false hn (Nat.zero_le n) hn.le_length (Nat.le_refl _) (by omega)]
      exact hinsert
    · have hmiddle : (run.take n ++ x :: run.drop n).Perm (x :: run) := by
        have hperm : (run.take n ++ x :: run.drop n).Perm (x :: (run.take n ++ run.drop n)) :=
          List.perm_middle
        rwa [List.take_append_drop] at hperm
      exact (hmiddle.append_right rest).trans List.perm_middle.symm

/-- The items that are followed go on in the direction in which they started. -/
theorem Orders.follow?_eq (falling : Bool) {R : α → α → Prop}
    (htrans : ∀ {x y z}, R x y → R y z → R x z)
    (hR : ∀ {x y}, P x → P y → before? y x = some falling → R x y) {last : α} {xs : List α}
    (hlast : P last) (hxs : ∀ x ∈ xs, P x) :
    ∃ run left, follow? before? falling last xs = some (run, left) ∧ run ++ left = xs ∧
      (last :: run).Pairwise R := by
  induction xs generalizing last with
  | nil => exact ⟨[], [], rfl, rfl, List.pairwise_singleton R last⟩
  | cons x rest ih =>
    have hx := hxs x List.mem_cons_self
    obtain ⟨answer, hanswer⟩ : ∃ answer, before? x last = some answer := by
      rcases horders.ahead hlast hx with ⟨h, -⟩ | ⟨h, -⟩ <;> exact ⟨_, h⟩
    by_cases hdirection : answer = falling
    · subst hdirection
      obtain ⟨run, left, hfollow, happend, hpairwise⟩ :=
        ih hx fun y hy => hxs y (List.mem_cons_of_mem x hy)
      have hfirst := hR hlast hx hanswer
      refine ⟨x :: run, left, ?_, congrArg (x :: ·) happend, List.pairwise_cons.mpr ⟨?_, hpairwise⟩⟩
      · rw [follow?, hanswer]
        simp [hfollow]
      · intro y hy
        rcases List.mem_cons.mp hy with rfl | hy
        · exact hfirst
        · exact htrans hfirst (List.rel_of_pairwise_cons hpairwise hy)
    · refine ⟨[], x :: rest, ?_, rfl, List.pairwise_singleton R last⟩
      rw [follow?, hanswer]
      simp [hdirection]

/-- Two items and those that go on in their direction are a run, turned round if they fall. -/
theorem Orders.ordered_follow? {x y : α} {xs : List α} (hx : P x) (hy : P y)
    (hxs : ∀ z ∈ xs, P z) :
    ∃ falling more left, before? y x = some falling ∧
      follow? before? falling y xs = some (more, left) ∧ more ++ left = xs ∧
      Ordered before? P (if falling then (x :: y :: more).reverse else x :: y :: more) := by
  have hall : ∀ {more left : List α}, more ++ left = xs → ∀ z ∈ x :: y :: more, P z := by
    rintro more left rfl z hz
    rcases List.mem_cons.mp hz with rfl | hz
    · exact hx
    rcases List.mem_cons.mp hz with rfl | hz
    · exact hy
    · exact hxs z (List.mem_append_left left hz)
  -- Items that come before one another are in order when they are read backwards.
  have hfalls : ∀ {a b}, P a → P b → before? b a = some true → Ahead before? P b a := by
    intro a b ha hb hbefore
    rcases horders.ahead ha hb with ⟨hfalse, -⟩ | ⟨-, hahead⟩
    · rw [hbefore] at hfalse
      cases hfalse
    · exact hahead
  rcases horders.ahead hx hy with ⟨h, hahead⟩ | ⟨h, hahead⟩
  · obtain ⟨more, left, hfollow, happend, hpairwise⟩ := horders.follow?_eq false
      (R := Ahead before? P) horders.ahead_trans (fun ha hb hbefore => ⟨ha, hb, hbefore⟩) hy hxs
    have hrun := horders.precedence_rising.le_all hpairwise hahead
    exact ⟨false, more, left, h, hfollow, happend, hall happend,
      List.pairwise_cons.mpr ⟨hrun, hpairwise⟩⟩
  · obtain ⟨more, left, hfollow, happend, hpairwise⟩ := horders.follow?_eq true
      (R := fun a b => Ahead before? P b a) (fun hab hbc => horders.ahead_trans hbc hab) hfalls hy hxs
    have hrun := horders.precedence_falling.le_all hpairwise hahead
    exact ⟨true, more, left, h, hfollow, happend,
      fun z hz => hall happend z (List.mem_reverse.mp hz),
      List.pairwise_reverse.mpr (List.pairwise_cons.mpr ⟨hrun, hpairwise⟩)⟩

/-- The run at the start of a list is in order, and takes an item at least. -/
theorem Orders.nextRun?_eq (least : Nat) {xs : List α} (hxs : ∀ x ∈ xs, P x) :
    ∃ run rest, nextRun? before? least xs = some (run, rest) ∧ Ordered before? P run ∧
      (run ++ rest).Perm xs ∧ (xs ≠ [] → run ≠ []) := by
  rcases xs with _ | ⟨x, _ | ⟨y, xs⟩⟩
  · exact ⟨[], [], rfl, ⟨nofun, List.Pairwise.nil⟩, List.Perm.refl _, fun h => h⟩
  · exact ⟨[x], [], rfl, ⟨hxs, List.pairwise_singleton _ x⟩, List.Perm.refl _, nofun⟩
  have hrest : ∀ z ∈ xs, P z :=
    fun z hz => hxs z (List.mem_cons_of_mem x (List.mem_cons_of_mem y hz))
  obtain ⟨falling, more, left, hfalling, hfollow, happend, hordered⟩ :=
    horders.ordered_follow? (hxs x List.mem_cons_self)
      (hxs y (List.mem_cons_of_mem x List.mem_cons_self)) hrest
  rw [nextRun?]
  simp only [hfalling, hfollow, Option.bind_eq_bind, Option.bind_some]
  generalize hrun : (if falling then (x :: y :: more).reverse else x :: y :: more) = run
    at hordered ⊢
  have hperm : run.Perm (x :: y :: more) := by
    subst hrun
    split
    · exact List.reverse_perm _
    · exact List.Perm.refl _
  -- What the run lacks to its least length is taken from the items after it.
  have hlacking : ∀ z ∈ left.take (least - run.length), P z := by
    intro z hz
    refine hrest z ?_
    rw [← happend]
    exact List.mem_append_right more (List.mem_of_mem_take hz)
  obtain ⟨run', hinsert, hordered', hperm'⟩ := horders.insertAll?_eq hordered hlacking
  refine ⟨run', left.drop (least - run.length), by rw [hinsert]; rfl, hordered', ?_,
    fun _ hnil => ?_⟩
  · have hsplit : (x :: y :: more) ++ left.take (least - run.length)
        ++ left.drop (least - run.length) = x :: y :: xs := by
      rw [List.append_assoc, List.take_append_drop, ← happend]
      rfl
    rw [← hsplit]
    exact (hperm'.trans (hperm.append_right _)).append_right _
  · have hmem : x ∈ run' :=
      hperm'.symm.subset (List.mem_append_left _ (hperm.symm.subset List.mem_cons_self))
    rw [hnil] at hmem
    cases hmem

/-! ### Merging all runs -/

variable {items last next xs : List α} {runs : List (Run α)}

/-- The runs found so far, the last one apart, hold the items that have been gone through. -/
structure Stacked (before? : α → α → Option Bool) (P : α → Prop) (items last : List α)
    (runs : List (Run α)) : Prop where
  top : Ordered before? P last
  below : ∀ r ∈ runs, Ordered before? P r.items
  perm : (last ++ runs.flatMap Run.items).Perm items

/-- Merging with the run before it keeps the last run in order. -/
theorem Orders.merge_stacked {r : Run α} (h : Stacked before? P items last (r :: runs)) :
    ∃ merged, merge? before? r.items last patience = some merged ∧
      Stacked before? P items merged.1 runs := by
  have hr := h.below r List.mem_cons_self
  obtain ⟨merged, hmerge, hmerged⟩ := horders.merge?_eq patience hr h.top
  refine ⟨merged, hmerge, ?_, fun r' hr' => h.below r' (List.mem_cons_of_mem r hr'), ?_⟩
  · exact hmerged.ordered fun x hx => (List.mem_append.mp hx).elim (hr.all x) (h.top.all x)
  · refine ((hmerged.1.trans List.perm_append_comm).append_right _).trans ?_
    rw [List.append_assoc]
    exact h.perm

/-- Runs that are settled hold the same items. -/
theorem Orders.settle?_eq (power : Nat) (h : Stacked before? P items last runs) :
    ∃ last' runs' patience', settle? before? power patience last runs
        = some (last', runs', patience') ∧ Stacked before? P items last' runs' := by
  induction runs generalizing last patience with
  | nil => exact ⟨last, [], patience, rfl, h⟩
  | cons r rest ih =>
    rw [settle?]
    by_cases hpower : power < r.power
    · obtain ⟨merged, hmerge, hstacked⟩ := horders.merge_stacked patience h
      obtain ⟨last', runs', patience', hsettle, hstacked'⟩ := ih merged.2 hstacked
      refine ⟨last', runs', patience', ?_, hstacked'⟩
      rw [if_pos hpower, hmerge]
      exact hsettle
    · exact ⟨last, r :: rest, patience, by rw [if_neg hpower], h⟩

omit horders in
/-- The next run becomes the last one. -/
theorem Stacked.push (power : Nat) (h : Stacked before? P items last runs)
    (hnext : Ordered before? P next) :
    Stacked before? P (items ++ next) next (⟨last, power⟩ :: runs) := by
  refine ⟨hnext, fun r hr => ?_, ?_⟩
  · rcases List.mem_cons.mp hr with rfl | hr
    · exact h.top
    · exact h.below r hr
  · exact List.perm_append_comm.trans (h.perm.append_right next)

omit horders in
/-- The last run is settled by the power between it and the next one, which then follows it. -/
theorem runs?_of_nextRun? {length : Nat} {rest : List α} (fuel : Nat) (last : List α)
    (runs : List (Run α)) (hne : xs ≠ [])
    (hnext : nextRun? before? (leastRun length) xs = some (next, rest)) :
    ∃ power, runs? before? length (fuel + 1) patience last runs xs
      = (settle? before? power patience last runs).bind fun settled =>
        runs? before? length fuel settled.2.2 next (⟨settled.1, power⟩ :: settled.2.1) rest := by
  rcases xs with _ | ⟨x, tail⟩
  · exact absurd rfl hne
  · refine ⟨power length (runs.map (·.items.length)).sum last.length next.length, ?_⟩
    change (nextRun? before? (leastRun length) (x :: tail)).bind _ = _
    rw [hnext]
    rfl

/-- All items go into runs, if there is a step for each of them. -/
theorem Orders.runs?_eq (length : Nat) {fuel : Nat} (h : Stacked before? P items last runs)
    (hxs : ∀ x ∈ xs, P x) (hfuel : xs.length ≤ fuel) :
    ∃ last' runs' patience', runs? before? length fuel patience last runs xs
        = some (last', runs', patience') ∧ Stacked before? P (items ++ xs) last' runs' := by
  induction fuel generalizing patience items last runs xs with
  | zero =>
    have hnil : xs = [] := List.eq_nil_of_length_eq_zero (Nat.le_zero.mp hfuel)
    subst hnil
    exact ⟨last, runs, patience, rfl, by rwa [List.append_nil]⟩
  | succ fuel ih =>
    rcases eq_or_ne xs [] with rfl | hne
    · exact ⟨last, runs, patience, rfl, by rwa [List.append_nil]⟩
    obtain ⟨next, rest, hnext, hordered, hperm, hsome⟩ := horders.nextRun?_eq (leastRun length) hxs
    obtain ⟨power, hstep⟩ := runs?_of_nextRun? patience fuel last runs hne hnext
    obtain ⟨last', runs', patience', hsettle, hstacked⟩ := horders.settle?_eq patience power h
    -- The next run takes an item at least, so the fuel lasts for the rest.
    have hshorter : rest.length ≤ fuel := by
      have hlength := hperm.length_eq
      have hpos := List.length_pos_of_ne_nil (hsome hne)
      rw [List.length_append] at hlength
      omega
    obtain ⟨last'', runs'', patience'', hruns, hstacked'⟩ :=
      ih patience' (hstacked.push _ hordered)
        (fun z hz => hxs z (hperm.subset (List.mem_append_right next hz))) hshorter
    refine ⟨last'', runs'', patience'', ?_, hstacked'.top, hstacked'.below,
      hstacked'.perm.trans ?_⟩
    · rw [hstep, hsettle]
      exact hruns
    · rw [List.append_assoc]
      exact hperm.append_left items

/-- The runs that are left become one, whichever of them are merged first. -/
theorem Orders.collapse?_eq {power : Nat}
    (h : Stacked before? P items last (⟨next, power⟩ :: runs)) :
    ∃ sorted, collapse? before? patience last next runs = some sorted ∧
      Ordered before? P sorted ∧ sorted.Perm items := by
  induction runs generalizing patience last next power with
  | nil =>
    obtain ⟨merged, hmerge, hstacked⟩ := horders.merge_stacked patience h
    refine ⟨merged.1, by rw [collapse?, hmerge]; rfl, hstacked.top, ?_⟩
    have hperm := hstacked.perm
    rwa [List.flatMap_nil, List.append_nil] at hperm
  | cons r rest ih =>
    rw [collapse?]
    by_cases hshort : r.items.length < last.length
    · -- The run before both goes first, below the last one.
      have hr := h.below r (List.mem_cons_of_mem _ List.mem_cons_self)
      have hnext := h.below ⟨next, power⟩ List.mem_cons_self
      obtain ⟨merged, hmerge, hmerged⟩ := horders.merge?_eq patience hr hnext
      have hordered := hmerged.ordered fun x hx =>
        (List.mem_append.mp hx).elim (hr.all x) (hnext.all x)
      have hstacked : Stacked before? P items last (⟨merged.1, power⟩ :: rest) := by
        refine ⟨h.top, fun r' hr' => ?_, ?_⟩
        · rcases List.mem_cons.mp hr' with rfl | hr'
          · exact hordered
          · exact h.below r' (List.mem_cons_of_mem _ (List.mem_cons_of_mem _ hr'))
        · refine List.Perm.trans ?_ h.perm
          simp only [List.flatMap_cons, ← List.append_assoc]
          refine List.Perm.append_right _ ?_
          rw [List.append_assoc]
          exact (hmerged.1.trans List.perm_append_comm).append_left last
      obtain ⟨sorted, hcollapse, hsorted⟩ := ih merged.2 hstacked
      exact ⟨sorted, by rw [if_pos hshort, hmerge]; exact hcollapse, hsorted⟩
    · obtain ⟨merged, hmerge, hstacked⟩ := horders.merge_stacked patience h
      obtain ⟨sorted, hcollapse, hsorted⟩ := ih merged.2 hstacked
      exact ⟨sorted, by rw [if_neg hshort, hmerge]; exact hcollapse, hsorted⟩

/-- **A list is put in order**, if the comparison is an order of its items. -/
theorem Orders.sort?_eq (hxs : ∀ x ∈ xs, P x) :
    ∃ sorted, sort? before? xs = some sorted ∧ Ordered before? P sorted ∧ sorted.Perm xs := by
  obtain ⟨first, rest, hnext, hordered, hperm, -⟩ := horders.nextRun?_eq (leastRun xs.length) hxs
  have hstart : Stacked before? P first first [] :=
    ⟨hordered, nofun, by rw [List.flatMap_nil, List.append_nil]⟩
  have hlength : rest.length ≤ xs.length := by
    rw [← hperm.length_eq, List.length_append]
    omega
  obtain ⟨last, runs, patience, hruns, hstacked⟩ := horders.runs?_eq worthwhile
    xs.length hstart (fun z hz => hxs z (hperm.subset (List.mem_append_right first hz))) hlength
  rw [sort?]
  simp only [hnext, Option.bind_eq_bind, Option.bind_some, hruns]
  rcases runs with _ | ⟨r, runs⟩
  · refine ⟨last, rfl, hstacked.top, ?_⟩
    have hperm' := hstacked.perm
    rw [List.flatMap_nil, List.append_nil] at hperm'
    exact hperm'.trans hperm
  · obtain ⟨sorted, hcollapse, hsorted, hperm'⟩ := horders.collapse?_eq patience hstacked
    exact ⟨sorted, hcollapse, hsorted, hperm'.trans hperm⟩

end

end RunSort

end LiteralSplice
