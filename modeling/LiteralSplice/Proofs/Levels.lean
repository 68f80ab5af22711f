/-
How deep a text is nested.

* **`Json.fewer_levels`**: what is read within fewer levels is read alike within more, unless it is
  one level too many for the fewer;
* **`Json.noDeeper`**: what is read is nested no deeper than there are levels;
* **`Json.NestedWithin`**: a text is nested no deeper than some levels;
* **`Json.NestedWithin.not_meets`**, **`Json.NestedWithin.depth_le`**: so nothing that is nested a
  hundred levels deep at most is too deep on any stack, nor is what is read from it.

Design notes: how many levels there are is not known, only that there are a hundred.  What is said
of a text is therefore said within a hundred, and carried over to any number from there.
-/
import LiteralSplice.Proofs.Excesses

namespace LiteralSplice

namespace Json

variable {levels levels' fuel : Nat} {t r : Text}

/-! ### Fewer levels -/

/-- What is read within fewer levels is the same, or it is one level too many for them. -/
def Lowered {α : Type} (more fewer : Except Stop α) : Prop :=
  more = fewer ∨ ∃ bracket, fewer = .error (.exceeded (.nesting bracket))

theorem Lowered.bind {α β : Type} {more fewer : Except Stop α} {f g : α → Except Stop β}
    (h : Lowered more fewer) (hf : ∀ a, Lowered (f a) (g a)) :
    Lowered (more >>= f) (fewer >>= g) := by
  obtain rfl | ⟨bracket, rfl⟩ := h
  · rcases more with stop | a
    · exact .inl rfl
    · exact hf a
  · exact .inr ⟨bracket, rfl⟩

theorem lowered_value (h : levels ≤ levels')
    (hitems : ∀ {levels levels'}, levels ≤ levels' → ∀ t,
      Lowered (items levels' fuel t) (items levels fuel t))
    (hmembers : ∀ {levels levels'}, levels ≤ levels' → ∀ t,
      Lowered (members levels' fuel t) (members levels fuel t)) (t : Text) :
    Lowered (value levels' (fuel + 1) t) (value levels (fuel + 1) t) := by
  rcases t with _ | ⟨c, r⟩
  · exact .inl rfl
  rw [value.eq_def, value.eq_def levels]
  simp only
  split
  · exact .inl rfl
  split
  · rcases levels with _ | levels
    · exact .inr ⟨.object, rfl⟩
    obtain ⟨levels', rfl⟩ := Nat.exists_eq_succ_of_ne_zero (Nat.ne_zero_of_lt h)
    rcases skip r with _ | ⟨d, rest⟩
    · exact .inl rfl
    simp only
    split
    · exact .inl rfl
    · exact (hmembers (Nat.le_of_succ_le_succ h) _).bind fun _ => .inl rfl
  split
  · rcases levels with _ | levels
    · exact .inr ⟨.array, rfl⟩
    obtain ⟨levels', rfl⟩ := Nat.exists_eq_succ_of_ne_zero (Nat.ne_zero_of_lt h)
    rcases skip r with _ | ⟨d, rest⟩
    · exact .inl rfl
    simp only
    split
    · exact .inl rfl
    · exact (hitems (Nat.le_of_succ_le_succ h) _).bind fun _ => .inl rfl
  · exact .inl rfl

theorem lowered_items (hvalue : ∀ t, Lowered (value levels' fuel t) (value levels fuel t))
    (hitems : ∀ t, Lowered (items levels' fuel t) (items levels fuel t)) (t : Text) :
    Lowered (items levels' (fuel + 1) t) (items levels (fuel + 1) t) := by
  rw [items, items]
  refine (hvalue t).bind ?_
  rintro ⟨v, r⟩
  rcases hskip : skip r with _ | ⟨d, rest⟩ <;> simp only [hskip]
  · exact .inl rfl
  split
  · exact .inl rfl
  split
  · exact (hitems _).bind fun _ => .inl rfl
  · exact .inl rfl

theorem lowered_members (hvalue : ∀ t, Lowered (value levels' fuel t) (value levels fuel t))
    (hmembers : ∀ t, Lowered (members levels' fuel t) (members levels fuel t)) (t : Text) :
    Lowered (members levels' (fuel + 1) t) (members levels (fuel + 1) t) := by
  rcases t with _ | ⟨c, r⟩
  · exact .inl rfl
  rw [members, members]
  split
  · refine Lowered.bind (.inl rfl) ?_
    rintro ⟨k, r⟩
    rcases hskip : skip r with _ | ⟨d, rest⟩ <;> simp only [hskip]
    · exact .inl rfl
    split
    · refine (hvalue _).bind ?_
      rintro ⟨v, r⟩
      rcases skip r with _ | ⟨d, rest⟩
      · exact .inl rfl
      simp only
      split
      · exact .inl rfl
      split
      · exact (hmembers _).bind fun _ => .inl rfl
      · exact .inl rfl
    · exact .inl rfl
  · exact .inl rfl

/-- Within more levels a text is read as within fewer, unless it is one level too many for them. -/
theorem fewer_levels (fuel : Nat) :
    (∀ {levels levels'}, levels ≤ levels' → ∀ t,
        Lowered (value levels' fuel t) (value levels fuel t)) ∧
      (∀ {levels levels'}, levels ≤ levels' → ∀ t,
        Lowered (items levels' fuel t) (items levels fuel t)) ∧
      ∀ {levels levels'}, levels ≤ levels' → ∀ t,
        Lowered (members levels' fuel t) (members levels fuel t) := by
  induction fuel with
  | zero => exact ⟨fun _ _ => .inl rfl, fun _ _ => .inl rfl, fun _ _ => .inl rfl⟩
  | succ fuel ih =>
    obtain ⟨hvalue, hitems, hmembers⟩ := ih
    exact ⟨fun h => lowered_value h hitems hmembers,
      fun h => lowered_items (hvalue h) (hitems h),
      fun h => lowered_members (hvalue h) (hmembers h)⟩

/-! ### The depth of what is read -/

/-- What is read by a reader is nested no deeper than there are levels. -/
def NoDeeper {α : Type} (depth : α → Nat) (levels : Nat)
    (read : Text → Except Stop (α × Text)) : Prop :=
  ∀ {t a rest}, read t = .ok (a, rest) → depth a ≤ levels

theorem membersDepth_insert (ms : List (Text × Json)) (k : Text) (v : Json) :
    membersDepth (insert ms k v) ≤ max (membersDepth ms) v.depth := by
  induction ms with
  | nil => simp only [insert, membersDepth, Nat.max_comm, le_refl]
  | cons m ms ih =>
    rw [insert]
    split
    · simp only [membersDepth]
      omega
    · simp only [membersDepth]
      omega

theorem membersDepth_foldl_insert (ms acc : List (Text × Json)) :
    membersDepth (ms.foldl (fun ms (k, v) => insert ms k v) acc)
      ≤ max (membersDepth acc) (membersDepth ms) := by
  induction ms generalizing acc with
  | nil => exact Nat.le_max_left _ _
  | cons m ms ih =>
    have hlater := ih (insert acc m.1 m.2)
    have hfirst := membersDepth_insert acc m.1 m.2
    show membersDepth (ms.foldl _ (insert acc m.1 m.2))
      ≤ max (membersDepth acc) (max m.2.depth (membersDepth ms))
    omega

theorem depth_of_numeral {negative : Bool} {left : Nat} {v : Json}
    (h : numeral negative left t = .ok (v, r)) : v.depth = 0 := by
  rw [numeral] at h
  simp only at h
  split at h
  · cases h
  split at h
  · split at h <;> cases h
    rfl
  · cases h
    rfl

theorem depth_of_number {v : Json} (h : number t = .ok (v, r)) : v.depth = 0 := by
  by_cases hminus : t.head? = some (CodePoint.ofChar '-')
  · obtain ⟨r, rfl⟩ := List.head?_eq_some_iff.mp hminus
    exact depth_of_numeral (number_minus r ▸ h)
  · exact depth_of_numeral (number_eq_numeral hminus ▸ h)

theorem depth_of_word {v : Json} (h : word? t = some (v, r)) : v.depth = 0 := by
  have hall : (words.all fun w => w.2.depth == 0) = true := by decide
  rw [word?, Option.map_eq_some_iff] at h
  obtain ⟨w, hfind, heq⟩ := h
  cases heq
  simpa using List.all_eq_true.mp hall w (List.mem_of_find?_eq_some hfind)

theorem value_noDeeper (hitems : ∀ levels, NoDeeper itemsDepth levels (items levels fuel))
    (hmembers : ∀ levels, NoDeeper membersDepth levels (members levels fuel)) :
    NoDeeper depth levels (value levels (fuel + 1)) := by
  intro t v rest h
  rcases t with _ | ⟨c, r⟩
  · cases h
  rw [value.eq_def] at h
  simp only at h
  split at h
  · obtain ⟨⟨s, r'⟩, -, hpure⟩ := Source.bind_eq_ok.mp h
    cases hpure
    exact Nat.zero_le _
  split at h
  · rcases levels with _ | levels
    · cases h
    rcases hskip : skip r with _ | ⟨d, r'⟩ <;> simp only [hskip, reduceCtorEq] at h
    split at h
    · cases h
      exact Nat.succ_le_succ (Nat.zero_le _)
    · obtain ⟨⟨ms, r''⟩, hms, hpure⟩ := Source.bind_eq_ok.mp h
      cases hpure
      have hinserted := membersDepth_foldl_insert ms []
      have hms := hmembers levels hms
      simp only [depth, membersDepth] at hinserted ⊢
      omega
  split at h
  · rcases levels with _ | levels
    · cases h
    rcases hskip : skip r with _ | ⟨d, r'⟩ <;> simp only [hskip, reduceCtorEq] at h
    split at h
    · cases h
      exact Nat.succ_le_succ (Nat.zero_le _)
    · obtain ⟨⟨vs, r''⟩, hvs, hpure⟩ := Source.bind_eq_ok.mp h
      cases hpure
      exact Nat.succ_le_succ (hitems levels hvs)
  · rcases hword : word? (c :: r) with _ | found <;> rw [hword] at h
    · exact depth_of_number h ▸ Nat.zero_le _
    · cases h
      exact depth_of_word hword ▸ Nat.zero_le _

theorem items_noDeeper (hvalue : NoDeeper depth levels (value levels fuel))
    (hitems : NoDeeper itemsDepth levels (items levels fuel)) :
    NoDeeper itemsDepth levels (items levels (fuel + 1)) := by
  intro t vs rest h
  rw [items] at h
  obtain ⟨⟨v, r⟩, hv, h⟩ := Source.bind_eq_ok.mp h
  have hv := hvalue hv
  rcases hskip : skip r with _ | ⟨d, r'⟩ <;> simp only [hskip, reduceCtorEq] at h
  split at h
  · cases h
    exact Nat.max_le.mpr ⟨hv, Nat.zero_le _⟩
  split at h
  · obtain ⟨⟨vs, r''⟩, hvs, hpure⟩ := Source.bind_eq_ok.mp h
    cases hpure
    exact Nat.max_le.mpr ⟨hv, hitems hvs⟩
  · cases h

theorem members_noDeeper (hvalue : NoDeeper depth levels (value levels fuel))
    (hmembers : NoDeeper membersDepth levels (members levels fuel)) :
    NoDeeper membersDepth levels (members levels (fuel + 1)) := by
  intro t ms rest h
  rcases t with _ | ⟨c, t⟩
  · cases h
  rw [members] at h
  split at h
  · obtain ⟨⟨k, r⟩, -, h⟩ := Source.bind_eq_ok.mp h
    rcases hskip : skip r with _ | ⟨d, r'⟩ <;> simp only [hskip, reduceCtorEq] at h
    split at h
    · obtain ⟨⟨v, r''⟩, hv, h⟩ := Source.bind_eq_ok.mp h
      have hv := hvalue hv
      rcases hskip' : skip r'' with _ | ⟨d', r₃⟩ <;> simp only [hskip', reduceCtorEq] at h
      split at h
      · cases h
        exact Nat.max_le.mpr ⟨hv, Nat.zero_le _⟩
      split at h
      · obtain ⟨⟨ms, r₄⟩, hms, hpure⟩ := Source.bind_eq_ok.mp h
        cases hpure
        exact Nat.max_le.mpr ⟨hv, hmembers hms⟩
      · cases h
    · cases h
  · cases h

theorem noDeeper (levels fuel : Nat) :
    NoDeeper depth levels (value levels fuel) ∧ NoDeeper itemsDepth levels (items levels fuel) ∧
      NoDeeper membersDepth levels (members levels fuel) := by
  induction fuel generalizing levels with
  | zero => exact ⟨nofun, nofun, nofun⟩
  | succ fuel ih =>
    obtain ⟨hvalue, hitems, hmembers⟩ := ih levels
    exact ⟨value_noDeeper (fun levels => (ih levels).2.1) fun levels => (ih levels).2.2,
      items_noDeeper hvalue hitems, members_noDeeper hvalue hmembers⟩

/-! ### Texts that are nested so deep at most -/

/-- Reading a text within so many levels never comes upon a bracket that is one too many. -/
def NestedWithin (levels : Nat) (t : Text) : Prop :=
  ∀ bracket, ¬ Meets (.nesting bracket) levels .value (skip t)

section

variable [Stack]

/-- A text that is nested a hundred levels deep at most is never nested too deep. -/
theorem NestedWithin.not_meets (h : NestedWithin 100 t) {bracket : Bracket} :
    ¬ Meets (.nesting bracket) Stack.levels .value (skip t) := by
  intro hmeets
  have hlength := (skip_suffix t).length_le
  have hfuel : 2 * (skip t).length + 1 ≤ 2 * t.length + 2 := by omega
  rw [← (refusesMet _ _ (2 * t.length + 2)).value _ hfuel] at hmeets
  rcases (fewer_levels (2 * t.length + 2)).1 Stack.hundred_le (skip t) with hsame | ⟨b, hdeep⟩
  · exact h bracket (((refusesMet _ _ _).value _ hfuel).mp (hsame ▸ hmeets))
  · exact h b (((refusesMet _ _ _).value _ hfuel).mp hdeep)

/-- Neither is what is read from it. -/
theorem NestedWithin.depth_le (h : NestedWithin 100 t) {v : Json}
    (hread : readDocument t = .ok v) : v.depth ≤ 100 := by
  have hlength := (skip_suffix t).length_le
  have hfuel : 2 * (skip t).length + 1 ≤ 2 * t.length + 2 := by omega
  rw [readDocument] at hread
  split at hread
  · cases hread
  rw [read] at hread
  rcases hv : value Stack.levels (2 * t.length + 2) (skip t) with stop | ⟨w, rest⟩ <;>
    simp only [hv, reduceCtorEq] at hread
  rcases (fewer_levels (2 * t.length + 2)).1 Stack.hundred_le (skip t) with hsame | ⟨b, hdeep⟩
  · rcases hrest : skip rest with _ | ⟨c, r⟩ <;> simp only [hrest, reduceCtorEq] at hread
    cases hread
    exact (noDeeper 100 _).1 (hsame ▸ hv)
  · exact absurd (((refusesMet _ _ _).value _ hfuel).mp hdeep) (h b)

end

end Json

end LiteralSplice
