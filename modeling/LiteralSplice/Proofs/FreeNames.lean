/-
The free names of a directory.

* **`FileTree.Vacant`**: a name under which there is nothing in a directory;
* **`FileTree.OpensAt.holds_join`**: a path that is asked for is not there exactly if its name is
  vacant;
* **`OutputName.exists_free`**: among as many names as there are entries and one more is a free one;
* **`OutputName.finds_nth`**: the search comes to an end at the first of them.

Design notes: any code points without a slash may be put together to a name, also to none, one dot
or two dots.  Under these three there always is something: the directory or the one it is in.
-/
import LiteralSplice.Proofs.OutputNames
import Mathlib.Data.Nat.Nth

namespace LiteralSplice

/-- A name can be looked up below a path: neither the name nor the path it makes is too long, which
are the two cases in which the system says that a file name is. -/
structure Path.Allows (d : Path) (name : Text) : Prop where
  short : FileTree.exceeds FileTree.nameLimit name = false
  near : FileTree.exceeds FileTree.pathLimit (d.join name).text = false

namespace FileTree

variable {t : FileTree} {d : Path} {place : Location} {name : Text}

/-- A name under which there is nothing in the directory at a place. -/
structure Vacant (t : FileTree) (place : Location) (name : Text) : Prop where
  isName : IsName name
  free : t.entryAt? (place ++ [FileName.bytes name]) = none

/-- A path leads to a directory at a place, and that is in a directory, or is the root. -/
structure OpensAt (t : FileTree) (d : Path) (place : Location) : Prop where
  tidy : d.Tidy
  found : t.find d.text = .ok (place, .directory)
  above : ∃ e, t.entryAt? place.dropLast = some e

theorem OpensAt.leadsTo (h : t.OpensAt d place) : t.LeadsTo d place :=
  leadsTo_of_find h.tidy h.found

theorem fits_of_allows (hname : IsName name) (hallows : d.Allows name) : d.Fits name := by
  have hnear := hallows.near
  rw [Path.join_name d hname] at hnear
  exact ⟨hallows.short, hnear⟩

theorem OpensAt.holds_vacant (h : t.OpensAt d place) (hallows : d.Allows name)
    (hvacant : t.Vacant place name) : t.holds (d.join name).text = .ok false := by
  rw [Path.join_name d hvacant.isName]
  have hheld := h.leadsTo.holds_below hvacant.isName (fits_of_allows hvacant.isName hallows)
  rw [hvacant.free] at hheld
  exact hheld

theorem holds_of_find {path : Text} {found : Location × Entry} (h : t.find path = .ok found) :
    t.holds path = .ok true := by
  rw [holds, ask, h]

/-- Under two dots there is the directory above. -/
theorem OpensAt.find_dots (h : t.OpensAt d place) (hallows : d.Allows "..") :
    ∃ e, t.find (d.join "..").text = .ok (place.dropLast, e) := by
  obtain ⟨e, habove⟩ := h.above
  have hkept : Path.Kept ".." := ⟨by decide, by decide, by decide⟩
  have hjoin : d.join ".." = d.below ".." := rfl
  have hnear := hallows.near
  rw [hjoin] at hnear ⊢
  refine ⟨e, find_eq_ok.mpr ⟨h.leadsTo.storable_below.mpr (by decide),
    text_below_ne_nil h.tidy hkept, by simp [hnear], ?_, habove⟩⟩
  rw [h.leadsTo.follow_below hkept, step, h.leadsTo.directory, if_neg (by decide),
    if_neg (not_not.mpr rfl), if_neg (by decide), if_pos rfl]

theorem OpensAt.holds_taken (h : t.OpensAt d place) (hslash : CodePoint.ofChar '/' ∉ name)
    (hstorable : name.Storable) (hallows : d.Allows name)
    (htaken : ¬ t.Vacant place name) : t.holds (d.join name).text = .ok true := by
  have hself : d.join [] = d := by simp [Path.join, Path.ofText, Text.split]
  by_cases hnil : name = []
  · rw [hnil, hself]
    exact holds_of_find h.found
  by_cases hdot : name = "."
  · rw [hdot, show d.join "." = d.join [] from rfl, hself]
    exact holds_of_find h.found
  by_cases hdots : name = ".."
  · rw [hdots] at hallows ⊢
    obtain ⟨e, hfind⟩ := h.find_dots hallows
    exact holds_of_find hfind
  -- What is left are names that stand for themselves, so there is an entry under this one.
  have hname : IsName name := ⟨hnil, hdot, hdots, hslash, hstorable⟩
  have hsome : t.entryAt? (place ++ [FileName.bytes name]) ≠ none :=
    fun hfree => htaken ⟨hname, hfree⟩
  rw [Path.join_name d hname]
  have hheld := h.leadsTo.holds_below hname (fits_of_allows hname hallows)
  rw [Option.isSome_iff_ne_none.mpr hsome] at hheld
  exact hheld

/-- **A path that is asked for is not there exactly if its name is vacant**, and if it can be looked
up there is an answer. -/
theorem OpensAt.holds_join (h : t.OpensAt d place) (hslash : CodePoint.ofChar '/' ∉ name)
    (hstorable : name.Storable) (hallows : d.Allows name) :
    (t.holds (d.join name).text = .ok false ↔ t.Vacant place name) ∧
      (t.holds (d.join name).text = .ok true ↔ ¬ t.Vacant place name) := by
  by_cases hvacant : t.Vacant place name
  · rw [h.holds_vacant hallows hvacant]
    simp [hvacant]
  · rw [h.holds_taken hslash hstorable hallows hvacant]
    simp [hvacant]

/-- Under a name that the system cannot be given there is nothing to be found, and nothing can be
written. -/
theorem OpensAt.refuses (h : t.OpensAt d place) (hkept : Path.Kept name)
    (hstorable : ¬ name.Storable) :
    ∃ fault, validate (d.join name).text = .error fault ∧
      t.holds (d.join name).text = .ok false ∧ t.placeFor (d.join name).text = .error fault := by
  have hjoin : d.join name = d.below name := Path.join_kept d hkept
  rw [hjoin]
  obtain ⟨fault, hfault, hnot⟩ := validate_error (mt h.leadsTo.storable_below.mp hstorable)
  have hfind : t.find (d.below name).text = .error fault := by
    rw [find, hfault]
    rfl
  refine ⟨fault, hfault, ?_, ?_⟩
  · rw [holds, ask, hfind]
    rcases fault with run | _ | ⟨reason, s⟩
    · rfl
    · rfl
    · exact absurd rfl (hnot reason s)
  · rw [placeFor, hfind]
    rcases fault with run | _ | ⟨reason, s⟩
    · rfl
    · rfl
    · exact absurd rfl (hnot reason s)

end FileTree

namespace OutputName

variable {t : FileTree} {d : Path} {place : Location} {stem suffix : Text}

/-- The names for a stem and a suffix: the two together, and then with the numbers from two on
before the last dot of the suffix, or at its end if there is none. -/
def Sequence (stem suffix : Text) (name : Nat → Text) : Prop :=
  name 0 = stem ++ suffix ∧ ∃ base ending, suffix = base ++ ending ∧
    ((ending = [] ∧ CodePoint.ofChar '.' ∉ suffix) ∨
      ∃ rest, ending = CodePoint.ofChar '.' :: rest ∧ CodePoint.ofChar '.' ∉ rest) ∧
    ∀ k, name (k + 1) = stem ++ base ++ "-" ++ Text.ofNat (k + 2) ++ ending

theorem sequence_candidate (stem suffix : Text) :
    Sequence stem suffix (candidate stem suffix) :=
  ⟨candidate_zero stem suffix, _, _, (splitAtDot_append suffix).symm, splitAtDot_ending suffix,
    candidate_succ stem suffix⟩

/-- There is nothing under the name that is tried after `k` others. -/
def Free (t : FileTree) (place : Location) (stem suffix : Text) (k : Nat) : Prop :=
  t.Vacant place (candidate stem suffix k)

/-- A name that is tried is not there exactly if it is free. -/
theorem holds_candidate (h : t.OpensAt d place) (hslash : CodePoint.ofChar '/' ∉ stem ++ suffix)
    (hstorable : (stem ++ suffix).Storable) {k : Nat}
    (hallows : d.Allows (candidate stem suffix k)) :
    (t.holds (d.join (candidate stem suffix k)).text = .ok false ↔ Free t place stem suffix k) ∧
      (t.holds (d.join (candidate stem suffix k)).text = .ok true
        ↔ ¬ Free t place stem suffix k) :=
  h.holds_join (not_mem_candidate hslash (by decide) (by decide) k)
    (storable_candidate.mpr hstorable) hallows

/-- From where on the names stand for themselves, one of as many names as there are entries and one
more is free. -/
theorem exists_free {m : Nat} (hnames : ∀ k, m ≤ k → IsName (candidate stem suffix k)) :
    ∃ k, m ≤ k ∧ k ≤ m + t.entries.length ∧ Free t place stem suffix k := by
  by_contra hnone
  set js := (List.range (t.entries.length + 1)).map (m + ·)
  have hjs : js.Nodup := List.nodup_range.map fun i j hij => Nat.add_left_cancel hij
  have htaken : ∀ k ∈ js,
      t.entryAt? (place ++ [FileName.bytes (candidate stem suffix k)]) ≠ none := by
    intro k hk hfree
    obtain ⟨i, hi, rfl⟩ := List.mem_map.mp hk
    have hi := List.mem_range.mp hi
    exact hnone ⟨m + i, by omega, by omega, hnames _ (by omega), hfree⟩
  have hle := length_le_entries hjs htaken
  rw [List.length_map, List.length_range] at hle
  omega

theorem exists_free_succ (t : FileTree) (place : Location)
    (hslash : CodePoint.ofChar '/' ∉ stem ++ suffix) (hstorable : (stem ++ suffix).Storable)
    (m : Nat) :
    ∃ k, m + 1 ≤ k ∧ k ≤ m + 1 + t.entries.length ∧ Free t place stem suffix k := by
  refine exists_free fun k hk => ?_
  obtain ⟨j, rfl⟩ : ∃ j, k = j + 1 := ⟨k - 1, by omega⟩
  exact isName_candidate_succ hslash hstorable j

/-- The names do not come to an end at which all of them are taken. -/
theorem free_infinite (t : FileTree) (place : Location)
    (hslash : CodePoint.ofChar '/' ∉ stem ++ suffix) (hstorable : (stem ++ suffix).Storable) :
    {k | Free t place stem suffix k}.Infinite := by
  refine Set.infinite_of_forall_exists_gt fun m => ?_
  obtain ⟨k, hk, -, hfree⟩ := exists_free_succ t place hslash hstorable m
  exact ⟨k, hfree, hk⟩

theorem nth_zero_le {k : Nat} (h : Free t place stem suffix k) :
    Nat.nth (Free t place stem suffix) 0 ≤ k := by
  rw [Nat.nth_zero]
  exact Nat.sInf_le h

theorem not_free_of_lt {k : Nat} (h : k < Nat.nth (Free t place stem suffix) 0) :
    ¬ Free t place stem suffix k :=
  fun hfree => Nat.not_le.mpr h (nth_zero_le hfree)

/-- The search comes to an end: all names before the one with a number are there, that one is not,
and it is what the search gives with any fuel that is enough to come to it, so with its own. -/
structure Finds (t : FileTree) (d : Path) (stem suffix : Text) (k : Nat) : Prop where
  before : ∀ j < k, t.holds (d.join (candidate stem suffix j)).text = .ok true
  free : t.holds (d.join (candidate stem suffix k)).text = .ok false
  found : ∀ fuel > k,
    firstFreeFrom t d stem suffix fuel 0 = .ok (d.join (candidate stem suffix k))
  first : firstFree t d stem suffix = .ok (d.join (candidate stem suffix k))

/-- **The search comes to an end at the first free name**, if that and those before it can be looked
up. -/
theorem finds_nth (h : t.OpensAt d place) (hslash : CodePoint.ofChar '/' ∉ stem ++ suffix)
    (hstorable : (stem ++ suffix).Storable)
    (hallows : ∀ j ≤ Nat.nth (Free t place stem suffix) 0, d.Allows (candidate stem suffix j)) :
    Finds t d stem suffix (Nat.nth (Free t place stem suffix) 0) := by
  have hbefore : ∀ j < Nat.nth (Free t place stem suffix) 0,
      t.holds (d.join (candidate stem suffix j)).text = .ok true := fun j hj =>
    (holds_candidate h hslash hstorable (hallows j (Nat.le_of_lt hj))).2.mpr (not_free_of_lt hj)
  have hfree := (holds_candidate h hslash hstorable (hallows _ (Nat.le_refl _))).1.mpr
    (Nat.nth_mem_of_infinite (free_infinite t place hslash hstorable) 0)
  -- The first of the names need not stand for itself, and is taken then.
  obtain ⟨k, -, hk, hvacant⟩ := exists_free_succ t place hslash hstorable 0
  have hle := nth_zero_le hvacant
  exact ⟨hbefore, hfree, fun fuel hfuel => firstFreeFrom_least hfuel hbefore hfree,
    firstFreeFrom_least (by omega) hbefore hfree⟩

end OutputName

end LiteralSplice
