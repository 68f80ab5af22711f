/-
What is left of a text when a part of it has been read.

* **`Json.Behind`**: one text is what is left of another behind its first character or further on;
* **`Json.stringBody_behind`**, **`Json.number_behind`**, **`Json.word?_behind`**: so it is with
  strings, numbers and words;
* **`Json.leavesBehind`**: and with values, items and members;
* **`Json.fuel_irrelevant`**: so two steps for each character are enough, and more make no
  difference.
-/
import LiteralSplice.Proofs.Snapshots

namespace LiteralSplice

namespace Json

open Source (bind_eq_ok)

/-- A text is what is left of another behind its first character or further on. -/
def Behind (rest t : Text) : Prop := ∃ c r, t = c :: r ∧ rest <:+ r

variable {t r rest : Text} {c : CodePoint} {levels fuel : Nat}

theorem behind_cons (h : rest <:+ r) : Behind rest (c :: r) := ⟨c, r, rfl, h⟩

theorem Behind.suffix (h : Behind rest t) : rest <:+ t := by
  obtain ⟨c, r, rfl, hr⟩ := h
  exact hr.trans (List.suffix_cons c r)

theorem Behind.length_lt (h : Behind rest t) : rest.length < t.length := by
  obtain ⟨c, r, rfl, hr⟩ := h
  exact Nat.lt_succ_of_le hr.length_le

theorem Behind.of_suffix (h : Behind r t) (hrest : rest <:+ r) : Behind rest t := by
  obtain ⟨c, s, rfl, hs⟩ := h
  exact behind_cons (hrest.trans hs)

theorem behind_of_append {s : Text} (hs : s ≠ []) (h : t = s ++ r) : Behind r t := by
  obtain ⟨c, s, rfl⟩ := List.exists_cons_of_ne_nil hs
  exact ⟨c, s ++ r, h, List.suffix_append s r⟩

theorem skip_suffix (t : Text) : skip t <:+ t := List.dropWhile_suffix _

/-- What is left behind a character that is not a blank. -/
theorem suffix_of_skip (h : skip t = c :: r) : r <:+ t :=
  (List.suffix_cons c r).trans (h ▸ skip_suffix t)

theorem length_skip_lt (h : skip t = c :: r) : (skip r).length < t.length := by
  have hr := (skip_suffix r).length_le
  have ht := (skip_suffix t).length_le
  rw [h, List.length_cons] at ht
  omega

/-! ### Strings, numbers and words -/

theorem stringPieces_behind {opening : Nat} {pieces : List Piece}
    (h : stringPieces opening t = .ok (pieces, rest)) : Behind rest t := by
  fun_induction stringPieces opening t generalizing pieces rest with
  | case1 => cases h
  | case2 r =>
    cases h
    exact behind_cons List.suffix_rfl
  | case3 => cases h
  | case4 h₁ h₂ h₃ h₄ next r =>
    rename_i ih
    obtain ⟨⟨ps, rest'⟩, hps, hpure⟩ := bind_eq_ok.mp h
    cases hpure
    exact behind_cons ((ih hps).suffix.trans
      (List.suffix_append [CodePoint.ofChar 'u', h₁, h₂, h₃, h₄] (next :: r)))
  | case5 => cases h
  | case6 => cases h
  | case7 e r =>
    rename_i ih
    obtain ⟨⟨ps, rest'⟩, hps, hpure⟩ := bind_eq_ok.mp h
    cases hpure
    exact behind_cons ((ih hps).suffix.trans (List.suffix_cons e r))
  | case8 => cases h
  | case9 => cases h
  | case10 c r =>
    rename_i ih
    obtain ⟨⟨ps, rest'⟩, hps, hpure⟩ := bind_eq_ok.mp h
    cases hpure
    exact behind_cons (ih hps).suffix

theorem stringBody_behind {s : Text} (h : stringBody t = .ok (s, rest)) : Behind rest t := by
  obtain ⟨⟨pieces, rest'⟩, hpieces, hpure⟩ := bind_eq_ok.mp h
  cases hpure
  exact stringPieces_behind hpieces

theorem wholeDigits_append (t : Text) : (wholeDigits t).1 ++ (wholeDigits t).2 = t := by
  rcases t with _ | ⟨c, r⟩
  · rfl
  · rw [wholeDigits]
    split
    · rfl
    · exact List.takeWhile_append_dropWhile

theorem fractionDigits_suffix (t : Text) : (fractionDigits t).2 <:+ t := by
  rcases t with _ | ⟨c, r⟩
  · exact List.suffix_rfl
  · rw [fractionDigits]
    split
    · exact (List.dropWhile_suffix _).trans (List.suffix_cons c r)
    · exact List.suffix_rfl

/-- The sign of an exponent, and what is left behind it. -/
def unsigned (t : Text) : Bool × Text :=
  match t with
  | s :: r => if s = '-' then (true, r) else if s = '+' then (false, r) else (false, t)
  | [] => (false, [])

theorem unsigned_suffix (t : Text) : (unsigned t).2 <:+ t := by
  rcases t with _ | ⟨s, r⟩
  · exact List.suffix_rfl
  · rw [unsigned]
    split
    · exact List.suffix_cons s r
    split
    · exact List.suffix_cons s r
    · exact List.suffix_rfl

theorem exponent?_cons (c : CodePoint) (r : Text) :
    exponent? (c :: r) =
      let digits := (unsigned r).2.takeWhile CodePoint.isDigit
      if (c = CodePoint.ofChar 'e' ∨ c = CodePoint.ofChar 'E') ∧ digits ≠ [] then
        let size : Int := digitsValue digits
        (some (if (unsigned r).1 then -size else size),
          (unsigned r).2.dropWhile CodePoint.isDigit)
      else (none, c :: r) := by
  rcases r with _ | ⟨s, r⟩ <;> rfl

theorem exponent?_suffix (t : Text) : (exponent? t).2 <:+ t := by
  rcases t with _ | ⟨c, r⟩
  · exact List.suffix_rfl
  · rw [exponent?_cons]
    simp only
    split
    · exact ((List.dropWhile_suffix _).trans (unsigned_suffix r)).trans (List.suffix_cons c r)
    · exact List.suffix_rfl

/-- The number at the start of a text without a sign, as a negative one or not; `left` is what is
reported where there is none. -/
def numeral (negative : Bool) (left : Nat) (body : Text) : Except Stop (Json × Text) :=
  let (whole, r₁) := wholeDigits body
  let (fraction, r₂) := fractionDigits r₁
  let (exponent, r₃) := exponent? r₂
  if whole = [] then .error (.refused .value left)
  else if fraction = [] ∧ exponent = none then
    if Text.digitLimit < whole.length then .error (.exceeded (.digits whole.length))
    else
      let size : Int := digitsValue whole
      .ok (int (if negative then -size else size), r₃)
  else
    .ok (float (Binary64.ofDecimal negative (digitsValue (whole ++ fraction))
      (exponent.getD 0 - fraction.length)), r₃)

theorem number_minus (r : Text) :
    number (CodePoint.ofChar '-' :: r) = numeral true (r.length + 1) r := rfl

theorem number_eq_numeral (h : t.head? ≠ some (CodePoint.ofChar '-')) :
    number t = numeral false t.length t := by
  rcases t with _ | ⟨c, r⟩
  · rfl
  · have hc : c ≠ CodePoint.ofChar '-' := fun he => h (congrArg some he)
    rw [number]
    simp only [if_neg hc]
    rfl

theorem numeral_behind {negative : Bool} {left : Nat} {v : Json}
    (h : numeral negative left t = .ok (v, rest)) : Behind rest t := by
  have hends : ((exponent? (fractionDigits (wholeDigits t).2).2).2) <:+ (wholeDigits t).2 :=
    (exponent?_suffix _).trans (fractionDigits_suffix _)
  rw [numeral] at h
  simp only at h
  split at h
  · cases h
  · rename_i hwhole
    have hbehind := (behind_of_append hwhole (wholeDigits_append t).symm).of_suffix hends
    split at h
    · split at h
      · cases h
      · cases h
        exact hbehind
    · cases h
      exact hbehind

theorem number_behind {v : Json} (h : number t = .ok (v, rest)) : Behind rest t := by
  by_cases hminus : t.head? = some (CodePoint.ofChar '-')
  · obtain ⟨r, rfl⟩ := List.head?_eq_some_iff.mp hminus
    rw [number_minus] at h
    exact behind_cons (numeral_behind h).suffix
  · rw [number_eq_numeral hminus] at h
    exact numeral_behind h

theorem word?_behind {v : Json} (h : word? t = some (v, rest)) : Behind rest t := by
  have hall : (words.all fun w => !w.1.isEmpty) = true := by decide
  rw [word?, Option.map_eq_some_iff] at h
  obtain ⟨w, hfind, heq⟩ := h
  obtain ⟨hbegins, hmem⟩ := And.intro (List.find?_some hfind) (List.mem_of_find?_eq_some hfind)
  have hword : w.1 ≠ [] := by simpa using List.all_eq_true.mp hall w hmem
  obtain ⟨s, hs⟩ := List.isPrefixOf_iff_prefix.mp hbegins
  cases heq
  refine behind_of_append hword ?_
  rw [← hs, List.drop_left]

/-! ### Values

Values, items and members are read by turns, so each of the three is shown to leave less behind
provided that the other two do. -/

/-- What is left behind a part that is read by a reader. -/
def LeavesBehind {α : Type} (read : Text → Except Stop (α × Text)) : Prop :=
  ∀ {t a rest}, read t = .ok (a, rest) → Behind rest t

theorem value_behind (hitems : ∀ levels, LeavesBehind (items levels fuel))
    (hmembers : ∀ levels, LeavesBehind (members levels fuel)) :
    LeavesBehind (value levels (fuel + 1)) := by
  intro t v rest h
  rcases t with _ | ⟨c, r⟩
  · cases h
  rw [value.eq_def] at h
  simp only at h
  split at h
  · obtain ⟨⟨s, r'⟩, hs, hpure⟩ := bind_eq_ok.mp h
    cases hpure
    exact behind_cons (stringBody_behind hs).suffix
  split at h
  · rcases levels with _ | levels
    · cases h
    rcases hskip : skip r with _ | ⟨d, r'⟩ <;> simp only [hskip, reduceCtorEq] at h
    split at h
    · cases h
      exact behind_cons (suffix_of_skip hskip)
    · obtain ⟨⟨ms, r''⟩, hms, hpure⟩ := bind_eq_ok.mp h
      cases hpure
      exact behind_cons ((hmembers levels hms).suffix.trans (hskip ▸ skip_suffix r))
  split at h
  · rcases levels with _ | levels
    · cases h
    rcases hskip : skip r with _ | ⟨d, r'⟩ <;> simp only [hskip, reduceCtorEq] at h
    split at h
    · cases h
      exact behind_cons (suffix_of_skip hskip)
    · obtain ⟨⟨vs, r''⟩, hvs, hpure⟩ := bind_eq_ok.mp h
      cases hpure
      exact behind_cons ((hitems levels hvs).suffix.trans (hskip ▸ skip_suffix r))
  · rcases hword : word? (c :: r) with _ | found
    · rw [hword] at h
      exact number_behind h
    · rw [hword] at h
      cases h
      exact word?_behind hword

theorem items_behind (hvalue : LeavesBehind (value levels fuel))
    (hitems : LeavesBehind (items levels fuel)) : LeavesBehind (items levels (fuel + 1)) := by
  intro t vs rest h
  rw [items] at h
  obtain ⟨⟨v, r⟩, hv, h⟩ := bind_eq_ok.mp h
  rcases hskip : skip r with _ | ⟨d, r'⟩ <;> simp only [hskip, reduceCtorEq] at h
  have hr' := (hvalue hv).of_suffix (suffix_of_skip hskip)
  split at h
  · cases h
    exact hr'
  split at h
  · obtain ⟨⟨vs, r''⟩, hvs, hpure⟩ := bind_eq_ok.mp h
    cases hpure
    exact hr'.of_suffix ((hitems hvs).suffix.trans (skip_suffix r'))
  · cases h

theorem members_behind (hvalue : LeavesBehind (value levels fuel))
    (hmembers : LeavesBehind (members levels fuel)) : LeavesBehind (members levels (fuel + 1)) := by
  intro t ms rest h
  rcases t with _ | ⟨c, t⟩
  · cases h
  rw [members] at h
  split at h
  · obtain ⟨⟨k, r⟩, hk, h⟩ := bind_eq_ok.mp h
    rcases hskip : skip r with _ | ⟨d, r'⟩ <;> simp only [hskip, reduceCtorEq] at h
    split at h
    · obtain ⟨⟨v, r''⟩, hv, h⟩ := bind_eq_ok.mp h
      have hr'' : r'' <:+ t := ((hvalue hv).suffix.trans (skip_suffix r')).trans
        ((suffix_of_skip hskip).trans (stringBody_behind hk).suffix)
      rcases hskip' : skip r'' with _ | ⟨d', r₃⟩ <;> simp only [hskip', reduceCtorEq] at h
      have hr₃ : r₃ <:+ t := (suffix_of_skip hskip').trans hr''
      split at h
      · cases h
        exact behind_cons hr₃
      split at h
      · obtain ⟨⟨ms, r₄⟩, hms, hpure⟩ := bind_eq_ok.mp h
        cases hpure
        exact behind_cons (((hmembers hms).suffix.trans (skip_suffix r₃)).trans hr₃)
      · cases h
    · cases h
  · cases h

/-- Less is left behind whatever is read. -/
theorem leavesBehind (levels fuel : Nat) :
    LeavesBehind (value levels fuel) ∧ LeavesBehind (items levels fuel) ∧
      LeavesBehind (members levels fuel) := by
  induction fuel generalizing levels with
  | zero => exact ⟨nofun, nofun, nofun⟩
  | succ fuel ih =>
    obtain ⟨hvalue, hitems, hmembers⟩ := ih levels
    exact ⟨value_behind (fun levels => (ih levels).2.1) fun levels => (ih levels).2.2,
      items_behind hvalue hitems, members_behind hvalue hmembers⟩

/-! ### The bound on the recursion -/

variable {fuel' : Nat}

theorem value_congr (hitems : ∀ levels, items levels fuel (skip r) = items levels fuel' (skip r))
    (hmembers : ∀ levels, members levels fuel (skip r) = members levels fuel' (skip r)) :
    value levels (fuel + 1) (c :: r) = value levels (fuel' + 1) (c :: r) := by
  rw [value.eq_def, value.eq_def]
  rcases levels with _ | levels
  · rfl
  rcases hskip : skip r with _ | ⟨d, r'⟩
  · simp only [hskip]
  · simp only [hskip] at hitems hmembers
    simp only [hskip, hitems, hmembers]

theorem items_congr (hvalue : value levels fuel t = value levels fuel' t)
    (hitems : ∀ v r d r', value levels fuel t = .ok (v, r) → skip r = d :: r' →
      items levels fuel (skip r') = items levels fuel' (skip r')) :
    items levels (fuel + 1) t = items levels (fuel' + 1) t := by
  rw [items, items, ← hvalue]
  rcases hv : value levels fuel t with stop | ⟨v, r⟩
  · rfl
  · simp only [bind, Except.bind]
    rcases hskip : skip r with _ | ⟨d, r'⟩
    · rfl
    · simp only [hitems v r d r' hv hskip]

theorem members_congr
    (hvalue : ∀ k r d r', stringBody t = .ok (k, r) → skip r = d :: r' →
      value levels fuel (skip r') = value levels fuel' (skip r') ∧
        ∀ v r₂ d₂ r₃, value levels fuel (skip r') = .ok (v, r₂) → skip r₂ = d₂ :: r₃ →
          members levels fuel (skip r₃) = members levels fuel' (skip r₃)) :
    members levels (fuel + 1) (c :: t) = members levels (fuel' + 1) (c :: t) := by
  rw [members, members]
  rcases hk : stringBody t with stop | ⟨k, r⟩
  · rfl
  · simp only [bind, Except.bind]
    rcases hskip : skip r with _ | ⟨d, r'⟩
    · rfl
    obtain ⟨hvalue, hmembers⟩ := hvalue k r d r' hk hskip
    simp only [← hvalue]
    rcases hv : value levels fuel (skip r') with stop | ⟨v, r₂⟩
    · rfl
    · simp only
      rcases hskip₂ : skip r₂ with _ | ⟨d₂, r₃⟩
      · rfl
      · simp only [hmembers v r₂ d₂ r₃ hv hskip₂]

/-- Two steps for each character are enough, and more make no difference. -/
theorem fuel_irrelevant (levels fuel fuel' : Nat) :
    (∀ t : Text, 2 * t.length + 1 ≤ fuel → 2 * t.length + 1 ≤ fuel' →
        value levels fuel t = value levels fuel' t) ∧
      (∀ t : Text, 2 * t.length + 2 ≤ fuel → 2 * t.length + 2 ≤ fuel' →
        items levels fuel t = items levels fuel' t) ∧
      ∀ t : Text, 2 * t.length + 1 ≤ fuel → 2 * t.length + 1 ≤ fuel' →
        members levels fuel t = members levels fuel' t := by
  induction fuel generalizing levels fuel' with
  | zero => exact ⟨fun _ h => absurd h (by omega), fun _ h => absurd h (by omega),
      fun _ h => absurd h (by omega)⟩
  | succ fuel ih =>
    obtain ⟨leftValue, -, -⟩ := leavesBehind levels fuel
    rcases fuel' with _ | fuel'
    · exact ⟨fun _ _ h => absurd h (by omega), fun _ _ h => absurd h (by omega),
        fun _ _ h => absurd h (by omega)⟩
    obtain ⟨ihvalue, ihitems, ihmembers⟩ := ih levels fuel'
    refine ⟨fun t h h' => ?_, fun t h h' => ?_, fun t h h' => ?_⟩
    · rcases t with _ | ⟨c, r⟩
      · rfl
      · have hr := (skip_suffix r).length_le
        rw [List.length_cons] at h h'
        exact value_congr (fun levels => (ih levels fuel').2.1 _ (by omega) (by omega))
          fun levels => (ih levels fuel').2.2 _ (by omega) (by omega)
    · refine items_congr (ihvalue t (by omega) (by omega)) fun v r d r' hv hr => ?_
      have hshort := (leftValue hv).length_lt
      have hless := length_skip_lt hr
      exact ihitems _ (by omega) (by omega)
    · rcases t with _ | ⟨c, t⟩
      · rfl
      rw [List.length_cons] at h h'
      refine members_congr fun k r d r' hk hr => ?_
      have hshort := (stringBody_behind hk).length_lt
      have hless := length_skip_lt hr
      refine ⟨ihvalue _ (by omega) (by omega), fun v r₂ d₂ r₃ hv hr₂ => ?_⟩
      have hshort₂ := (leftValue hv).length_lt
      have hless₂ := length_skip_lt hr₂
      exact ihmembers _ (by omega) (by omega)

end Json

end LiteralSplice
