/-
The first free output name.

* **`OutputName.bytes_candidate_injective`**: the names that are tried are all different, and so
  are their bytes;
* **`OutputName.firstFree_ok`**: what the search gives is the first of them under which there is
  nothing.

Design notes: the search is bounded by the number of entries.  That it never stops for want of
fuel is a count: every name that is taken leads to an entry of its own, so there cannot be more
taken names than entries.
-/
import LiteralSplice.OutputName
import LiteralSplice.Proofs.Lookups
import Mathlib.Data.List.Nodup
import Mathlib.Data.List.Perm.Subperm

namespace LiteralSplice

namespace OutputName

variable {stem suffix : Text}

theorem splitAtDot_append (suffix : Text) :
    (splitAtDot suffix).1 ++ (splitAtDot suffix).2 = suffix := by
  rw [splitAtDot]
  split
  · rename_i before after h
    exact (Text.splitLast?_eq_some h).1.symm
  · exact List.append_nil suffix

/-- What follows the name part of a suffix is nothing, or a dot and no other dot after it. -/
theorem splitAtDot_ending (suffix : Text) :
    ((splitAtDot suffix).2 = [] ∧ CodePoint.ofChar '.' ∉ suffix) ∨
      ∃ rest, (splitAtDot suffix).2 = CodePoint.ofChar '.' :: rest ∧
        CodePoint.ofChar '.' ∉ rest := by
  rw [splitAtDot]
  split
  · rename_i before after h
    exact Or.inr ⟨after, rfl, (Text.splitLast?_eq_some h).2⟩
  · rename_i h
    exact Or.inl ⟨rfl, Text.splitLast?_eq_none h⟩

theorem candidate_zero (stem suffix : Text) : candidate stem suffix 0 = stem ++ suffix := by
  rw [candidate, if_pos rfl]

theorem candidate_succ (stem suffix : Text) (k : Nat) :
    candidate stem suffix (k + 1) = stem ++ (splitAtDot suffix).1 ++ "-" ++ Text.ofNat (k + 2)
      ++ (splitAtDot suffix).2 := by
  rw [candidate, if_neg (Nat.succ_ne_zero k)]

/-- A numbered name has more bytes than the name without a number. -/
theorem size_candidate_zero_lt (stem suffix : Text) (k : Nat) :
    FileName.size (candidate stem suffix 0) < FileName.size (candidate stem suffix (k + 1)) := by
  have hsuffix := congrArg FileName.size (splitAtDot_append suffix)
  have hdash : FileName.size "-" = 1 := rfl
  rw [FileName.size_append] at hsuffix
  rw [candidate_zero, candidate_succ]
  simp only [FileName.size_append, hdash]
  omega

/-- The names that are tried are all different, and so are their bytes. -/
theorem bytes_candidate_injective (stem suffix : Text) :
    Function.Injective fun k => FileName.bytes (candidate stem suffix k) := by
  intro j k h
  have hsize : FileName.size (candidate stem suffix j) = FileName.size (candidate stem suffix k) :=
    congrArg List.length h
  rcases j with _ | j <;> rcases k with _ | k
  · rfl
  · exact absurd hsize (Nat.ne_of_lt (size_candidate_zero_lt stem suffix k))
  · exact absurd hsize (Nat.ne_of_gt (size_candidate_zero_lt stem suffix j))
  · simp only [candidate_succ, FileName.bytes_append, List.append_left_inj,
      List.append_right_inj] at h
    have hnumber := Text.ofNat_injective
      (FileName.eq_of_bytes_eq (Text.plain_ofNat _) (Text.plain_ofNat _) h)
    omega

/-- Besides the stem and the suffix there are only a hyphen and digits in a name. -/
theorem mem_candidate {c : CodePoint} {k : Nat} (hc : c ∈ candidate stem suffix k) :
    c ∈ stem ++ suffix ∨ c = CodePoint.ofChar '-' ∨ c.isDigit = true := by
  rcases k with _ | k
  · rw [candidate_zero] at hc
    exact Or.inl hc
  · rw [← splitAtDot_append suffix, ← List.append_assoc]
    rw [candidate_succ] at hc
    simp only [List.mem_append] at hc ⊢
    rcases hc with (((hc | hc) | hc) | hc) | hc
    · exact Or.inl (Or.inl (Or.inl hc))
    · exact Or.inl (Or.inl (Or.inr hc))
    · exact Or.inr (Or.inl (List.mem_singleton.mp hc))
    · exact Or.inr (Or.inr (Text.isDigit_of_mem_ofNat hc))
    · exact Or.inl (Or.inr hc)

theorem not_mem_candidate {c : CodePoint} (h : c ∉ stem ++ suffix)
    (hdash : c ≠ CodePoint.ofChar '-') (hdigit : c.isDigit = false) (k : Nat) :
    c ∉ candidate stem suffix k := by
  intro hc
  rcases mem_candidate hc with hc | hc | hc
  · exact h hc
  · exact hdash hc
  · rw [hdigit] at hc
    cases hc

/-- The stem and the suffix are in each of the names. -/
theorem subset_candidate (stem suffix : Text) (k : Nat) :
    stem ++ suffix ⊆ candidate stem suffix k := by
  rcases k with _ | k
  · rw [candidate_zero]
    exact List.Subset.refl _
  · intro c hc
    rw [← splitAtDot_append suffix, ← List.append_assoc] at hc
    rw [candidate_succ]
    simp only [List.mem_append] at hc ⊢
    rcases hc with (hc | hc) | hc
    · exact Or.inl (Or.inl (Or.inl (Or.inl hc)))
    · exact Or.inl (Or.inl (Or.inl (Or.inr hc)))
    · exact Or.inr hc

/-- The system can be given all of the names or none. -/
theorem storable_candidate {k : Nat} :
    (candidate stem suffix k).Storable ↔ (stem ++ suffix).Storable := by
  refine ⟨fun h c hc => h c (subset_candidate stem suffix k hc), fun h c hc => ?_⟩
  rcases mem_candidate hc with hc | rfl | hdigit
  · exact h c hc
  · decide
  · refine ⟨fun he => ?_, ?_⟩
    · rw [he] at hdigit
      exact absurd hdigit (by decide)
    · rw [FileName.isByteless, CodePoint.isSurrogate_of_isDigit hdigit, Bool.false_and]

/-- A numbered name stands for itself. -/
theorem isName_candidate_succ (h : CodePoint.ofChar '/' ∉ stem ++ suffix)
    (hstorable : (stem ++ suffix).Storable) (k : Nat) :
    IsName (candidate stem suffix (k + 1)) := by
  -- There is a hyphen in it, so it is none of the names that are left out.
  have hdash : CodePoint.ofChar '-' ∈ candidate stem suffix (k + 1) := by
    rw [candidate_succ]
    simp [Text.ofString]
  refine ⟨List.ne_nil_of_mem hdash, fun he => ?_, fun he => ?_,
    not_mem_candidate h (by decide) (by decide) _, storable_candidate.mpr hstorable⟩
  · rw [he] at hdash
    exact absurd hdash (by decide)
  · rw [he] at hdash
    exact absurd hdash (by decide)

/-- With the first name that is tried, all of them stand for themselves. -/
theorem isName_candidate (h : IsName (stem ++ suffix)) (k : Nat) :
    IsName (candidate stem suffix k) := by
  rcases k with _ | k
  · rw [candidate_zero]
    exact h
  · exact isName_candidate_succ h.no_slash h.storable k

/-! ### The search -/

variable {t : FileTree} {d path : Path}

/-- Whatever the fuel, the search passes over taken names only, and stops at a free one unless
the fuel is used up. -/
theorem firstFreeFrom_ok {fuel tried : Nat}
    (h : firstFreeFrom t d stem suffix fuel tried = .ok path) :
    ∃ k, tried ≤ k ∧ path = d.join (candidate stem suffix k) ∧
      (∀ j, tried ≤ j → j < k → t.holds (d.join (candidate stem suffix j)).text = .ok true) ∧
      (k = tried + fuel ∨ t.holds path.text = .ok false) := by
  induction fuel generalizing tried with
  | zero =>
    cases h
    exact ⟨tried, Nat.le_refl _, rfl, fun j h1 h2 => absurd h1 (Nat.not_le.mpr h2), Or.inl rfl⟩
  | succ fuel ih =>
    rw [firstFreeFrom] at h
    rcases hheld : t.holds (d.join (candidate stem suffix tried)).text with fault | held
    · rw [hheld] at h
      cases h
    · rw [hheld] at h
      rcases held with _ | _
      · cases h
        exact ⟨tried, Nat.le_refl _, rfl, fun j h1 h2 => absurd h1 (Nat.not_le.mpr h2),
          Or.inr hheld⟩
      · obtain ⟨k, hk, hpath, hbefore, hend⟩ := ih h
        refine ⟨k, by omega, hpath, fun j h1 h2 => ?_, ?_⟩
        · by_cases hj : j = tried
          · rw [hj]
            exact hheld
          · exact hbefore j (by omega) h2
        · rcases hend with hend | hend
          · exact Or.inl (by omega)
          · exact Or.inr hend

/-- The search comes to nothing only where the system refuses one of the names. -/
theorem firstFreeFrom_error {fuel tried : Nat} {fault : PathFault}
    (h : firstFreeFrom t d stem suffix fuel tried = .error fault) :
    ∃ reason s, fault = .refused reason s := by
  induction fuel generalizing tried with
  | zero => cases h
  | succ fuel ih =>
    rw [firstFreeFrom] at h
    rcases hheld : t.holds (d.join (candidate stem suffix tried)).text with held | held
    · obtain ⟨reason, -, rfl, -⟩ := FileTree.ask_error hheld
      rw [hheld] at h
      cases h
      exact ⟨reason, _, rfl⟩
    · rw [hheld] at h
      rcases held with _ | _
      · cases h
      · exact ih h

/-- Names that are taken in a directory have entries of their own, so there are no more of them than
entries. -/
theorem length_le_entries {place : Location} {js : List Nat} (hjs : js.Nodup)
    (h : ∀ j ∈ js, t.entryAt? (place ++ [FileName.bytes (candidate stem suffix j)]) ≠ none) :
    js.length ≤ t.entries.length := by
  set places := js.map fun j => place ++ [FileName.bytes (candidate stem suffix j)] with hplaces
  have hinj : Function.Injective fun j => place ++ [FileName.bytes (candidate stem suffix j)] := by
    intro i j hij
    have hlast := List.append_cancel_left hij
    exact bytes_candidate_injective stem suffix (List.singleton_injective hlast)
  have hsub : places ⊆ t.entries.map Prod.fst := by
    intro found hfound
    obtain ⟨j, hj, rfl⟩ := List.mem_map.mp hfound
    obtain ⟨entry, hentry⟩ := Option.ne_none_iff_exists'.mp (h j hj)
    rw [FileTree.entryAt?_of_ne_nil (by simp)] at hentry
    obtain ⟨before, after, hlist, -⟩ := List.lookup_eq_some_iff.mp hentry
    rw [hlist]
    simp
  have hle := (List.subperm_of_subset (hjs.map hinj) hsub).length_le
  simpa [hplaces] using hle

theorem taken_le_entries (hd : d.Absolute) (hname : IsName (stem ++ suffix)) {k : Nat}
    (h : ∀ j < k, t.holds (d.join (candidate stem suffix j)).text = .ok true) :
    k ≤ t.entries.length := by
  have htaken : ∀ j ∈ List.range k,
      t.entryAt? (d.place ++ [FileName.bytes (candidate stem suffix j)]) ≠ none := by
    intro j hj
    have hc := isName_candidate hname j
    have hheld := h j (List.mem_range.mp hj)
    rw [Path.join_name d hc] at hheld
    obtain ⟨q, entry, hfind⟩ := FileTree.holds_true hheld
    obtain ⟨-, hentry⟩ := FileTree.find_absolute (hd.snoc hc) hfind
    rw [← Path.place_below]
    exact hentry ▸ Option.some_ne_none entry
  simpa using length_le_entries List.nodup_range htaken

/-- The search gives the first of the names under which there is nothing. -/
theorem firstFree_ok (hd : d.Absolute) (hname : IsName (stem ++ suffix))
    (h : firstFree t d stem suffix = .ok path) :
    ∃ k, path = { d with names := d.names ++ [candidate stem suffix k] } ∧
      t.holds path.text = .ok false ∧
      ∀ j < k, t.holds (d.join (candidate stem suffix j)).text = .ok true := by
  obtain ⟨k, -, hpath, hbefore, hend⟩ := firstFreeFrom_ok h
  have htaken := fun j hj => hbefore j (Nat.zero_le j) hj
  refine ⟨k, by rw [hpath, Path.join_name d (isName_candidate hname k)], ?_, htaken⟩
  rcases hend with hend | hend
  · -- There is one name more to try than there are entries.
    have hle := taken_le_entries hd hname htaken
    omega
  · exact hend

/-- The search passes over names that are taken and stops at the first that is not, whether it is
free or cannot be looked up. -/
theorem firstFreeFrom_stops {fuel tried k : Nat} (hk : tried ≤ k) (hfuel : k < tried + fuel)
    (hbefore : ∀ j, tried ≤ j → j < k →
      t.holds (d.join (candidate stem suffix j)).text = .ok true)
    (hstop : t.holds (d.join (candidate stem suffix k)).text ≠ .ok true) :
    firstFreeFrom t d stem suffix fuel tried
      = (t.holds (d.join (candidate stem suffix k)).text).map
          fun _ => d.join (candidate stem suffix k) := by
  induction fuel generalizing tried with
  | zero => omega
  | succ fuel ih =>
    rw [firstFreeFrom]
    by_cases hlast : tried = k
    · rw [hlast]
      rcases hheld : t.holds (d.join (candidate stem suffix k)).text with fault | _ | _
      · rfl
      · rfl
      · exact absurd hheld hstop
    · rw [hbefore tried (Nat.le_refl tried) (by omega)]
      exact ih (by omega) (by omega) fun j hj => hbefore j (by omega)

/-- With fuel enough to come to it, the search gives the first of the names that is free. -/
theorem firstFreeFrom_least {fuel k : Nat} (hfuel : k < fuel)
    (hbefore : ∀ j < k, t.holds (d.join (candidate stem suffix j)).text = .ok true)
    (hfree : t.holds (d.join (candidate stem suffix k)).text = .ok false) :
    firstFreeFrom t d stem suffix fuel 0 = .ok (d.join (candidate stem suffix k)) := by
  rw [firstFreeFrom_stops (Nat.zero_le k) (by omega) (fun j _ => hbefore j) (by rw [hfree]; nofun),
    hfree]
  rfl

end OutputName

end LiteralSplice
