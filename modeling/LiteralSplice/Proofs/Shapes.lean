/-
The shape of hand-offs with lines of any kind.

* **`Handoff.textsFrom_eq_ok`**, **`Handoff.FirstOther.textsFrom_eq`**: lines are taken for texts if
  all of them are, and are refused for the first that is none;
* **`Handoff.firstRepeat?_eq_some_iff`**: the repetition that is found is the line at the least
  index that equals an earlier one;
* **`Handoff.Outcome`**: what comes of a hand-off, one constructor for each first defect and one for
  none;
* **`Handoff.checkValues_eq`**: the check on the values as they come gives the same answer;
* **`Handoff.check_outcome`**: the check comes to exactly one outcome, and no value that cannot be
  kept in a set is ever looked for in one.
-/
import LiteralSplice.Handoff.Values
import LiteralSplice.Proofs.Handoffs

namespace LiteralSplice

namespace Handoff

variable {v : Json} {vs : List Json} {i j : Nat} {line : Text} {lines : List Text}

/-! ### The first value that is no text -/

/-- A value is the first of a list that is no text. -/
structure FirstOther (vs : List Json) (i : Nat) (v : Json) : Prop where
  value : vs[i]? = some v
  other : ∀ t, v ≠ .string t
  before : ∀ k < i, ∃ t, vs[k]? = some (.string t)

theorem firstOther_cons_other (hv : ∀ t, v ≠ .string t) : FirstOther (v :: vs) 0 v :=
  ⟨rfl, hv, fun _ hk => absurd hk (Nat.not_lt_zero _)⟩

theorem FirstOther.cons_text {w : Json} {t : Text} (h : FirstOther vs i w) :
    FirstOther (.string t :: vs) (i + 1) w := by
  refine ⟨h.value, h.other, fun k hk => ?_⟩
  rcases k with _ | k
  · exact ⟨t, rfl⟩
  · exact h.before k (Nat.lt_of_succ_lt_succ hk)

/-- Values are texts, or one of them is the first that is none. -/
theorem texts_or_firstOther (vs : List Json) :
    (∃ lines : List Text, vs = lines.map .string) ∨ ∃ i v, FirstOther vs i v := by
  induction vs with
  | nil => exact .inl ⟨[], rfl⟩
  | cons v rest ih =>
    by_cases hv : ∃ t, v = .string t
    · obtain ⟨t, rfl⟩ := hv
      rcases ih with ⟨lines, rfl⟩ | ⟨i, w, hw⟩
      · exact .inl ⟨t :: lines, rfl⟩
      · exact .inr ⟨i + 1, w, hw.cons_text⟩
    · exact .inr ⟨0, v, firstOther_cons_other (not_exists.mp hv)⟩

/-- Lines are refused for the first that is no text. -/
theorem FirstOther.textsFrom_eq (h : FirstOther vs i v) (part : Part) (index : Nat) :
    textsFrom part index vs = .error (.notText part (index + i) v.kindName) := by
  induction i generalizing vs index with
  | zero =>
    obtain ⟨rest, rfl⟩ := List.head?_eq_some_iff.mp (List.head?_eq_getElem?.trans h.value)
    cases v with
    | string t => exact absurd rfl (h.other t)
    | _ => rfl
  | succ i ih =>
    obtain ⟨t, ht⟩ := h.before 0 (Nat.succ_pos i)
    obtain ⟨rest, rfl⟩ := List.head?_eq_some_iff.mp (List.head?_eq_getElem?.trans ht)
    have hrest : FirstOther rest i v :=
      ⟨h.value, h.other, fun k hk => h.before (k + 1) (Nat.succ_lt_succ hk)⟩
    rw [textsFrom, ih hrest, Nat.add_assoc, Nat.add_comm 1 i]
    rfl

/-! ### The first repetition -/

/-- A line is the one at the least index that equals an earlier line. -/
structure FirstRepeat (lines : List Text) (j : Nat) (line : Text) : Prop where
  found : lines[j]? = some line
  earlier : ∃ i < j, lines[i]? = some line
  least : ∀ k < j, ∀ i < k, lines[i]? ≠ lines[k]?

/-- The repetition that is found is the line at the least index that equals an earlier one. -/
theorem firstRepeat?_eq_some_iff :
    firstRepeat? [] lines = some line ↔ ∃ j, FirstRepeat lines j line := by
  rw [firstRepeat?_eq_some]
  constructor
  · rintro ⟨before, after, rfl, hnodup, -, hline⟩
    have hbefore : ∀ k < before.length, (before ++ line :: after)[k]? = before[k]? :=
      fun k hk => List.getElem?_append_left hk
    obtain ⟨i, hi, heq⟩ := List.mem_iff_getElem.mp (hline.resolve_right List.not_mem_nil)
    refine ⟨before.length, ?_, ⟨i, hi, ?_⟩, fun k hk i hi => ?_⟩
    · rw [List.getElem?_append_right (Nat.le_refl _), Nat.sub_self]
      rfl
    · rw [hbefore i hi, List.getElem?_eq_getElem hi, heq]
    · rw [hbefore k hk, hbefore i (Nat.lt_trans hi hk)]
      exact List.nodup_iff_getElem?_ne_getElem?.mp hnodup i k hi hk
  · rintro ⟨j, hj⟩
    obtain ⟨hlt, hget⟩ := List.getElem?_eq_some_iff.mp hj.found
    obtain ⟨i, hi, hearlier⟩ := hj.earlier
    have htake : ∀ k < j, (lines.take j)[k]? = lines[k]? := fun k hk => List.getElem?_take_of_lt hk
    refine ⟨lines.take j, lines.drop (j + 1), ?_, ?_, fun _ _ => List.not_mem_nil, .inl ?_⟩
    · rw [← hget, List.getElem_cons_drop, List.take_append_drop]
    · refine List.nodup_iff_getElem?_ne_getElem?.mpr fun i k hik hk => ?_
      have hkj : k < j := Nat.lt_of_lt_of_le hk (List.length_take_le _ _)
      rw [htake i (Nat.lt_trans hik hkj), htake k hkj]
      exact hj.least k hkj i hik
    · exact List.mem_of_getElem? ((htake i hi).trans hearlier)

/-! ### The check on values as they come -/

end Handoff

theorem Json.alike_string (s t : Text) : alike (.string s) (.string t) = (s == t) := by
  rw [alike]

namespace Handoff

theorem requireTexts_eq (part : Part) (index : Nat) (vs : List Json) :
    requireTexts part index vs
      = ((textsFrom part index vs).mapError ShapeFault.ofValues).map fun _ => () := by
  fun_induction textsFrom part index vs with
  | case1 => rfl
  | case2 index t rest ih =>
    rw [requireTexts, ih]
    rcases textsFrom part (index + 1) rest with fault | lines <;> rfl
  | case3 index v rest hv =>
    cases v with
    | string t => exact absurd rfl (hv t)
    | _ => rfl

/-- Among texts the search never meets a value that cannot be kept in a set, and finds what the
search among texts finds. -/
theorem requireDistinct_map_string (source : Text) (seen lines : List Text) :
    requireDistinct source (seen.map .string) (lines.map .string)
      = match firstRepeat? seen lines with
        | some line => .error (.repeated source (.string line))
        | none => .ok () := by
  induction lines generalizing seen with
  | nil => rfl
  | cons t rest ih =>
    have hseen : ((seen.map Json.string).any (Json.alike (.string t))) = true ↔ t ∈ seen := by
      rw [List.any_map, List.any_eq_true]
      simp only [Function.comp_apply, Json.alike_string, beq_iff_eq, exists_eq_right']
    rw [List.map_cons, requireDistinct, if_neg (by simp [Json.isHashable]), firstRepeat?]
    by_cases ht : t ∈ seen
    · rw [if_pos (hseen.mpr ht), if_pos ht]
    · rw [if_neg (mt hseen.mp ht), if_neg ht, ← ih]
      rfl

theorem textsFrom_eq_ok {part : Part} {index : Nat} :
    textsFrom part index vs = .ok lines ↔ vs = lines.map .string := by
  constructor
  · intro h
    rcases texts_or_firstOther vs with ⟨lines', rfl⟩ | ⟨i, v, hv⟩
    · rw [textsFrom_map_string] at h
      rw [Except.ok.inj h]
    · rw [hv.textsFrom_eq] at h
      cases h
  · rintro rfl
    exact textsFrom_map_string part index lines

/-! ### What comes of a hand-off -/

/-- What comes of a hand-off with lines of any kind: it is refused for the first instruction that is
no text, else for the first such literal, else for the first literal that is repeated, and else it
is taken as it is, however short it is. -/
inductive Outcome (h : Handoff Json) : Except Text (Handoff Text) → Prop
  | instruction {i v} (hv : FirstOther h.instructions i v) :
      Outcome h (.error ("Instruction stream line " ++ Text.ofNat i ++ " is " ++ v.kindName
        ++ ", expected str"))
  | literal {instructions : List Text} {i v}
      (hinstructions : h.instructions = instructions.map .string) (hv : FirstOther h.literals i v) :
      Outcome h (.error ("Literal pool line " ++ Text.ofNat i ++ " is " ++ v.kindName
        ++ ", expected str"))
  | repeated {instructions literals : List Text} {j line}
      (hinstructions : h.instructions = instructions.map .string)
      (hliterals : h.literals = literals.map .string) (hline : FirstRepeat literals j line) :
      Outcome h (.error ("Duplicate literal declaration in " ++ h.source ++ ": " ++ line.quoted))
  | whole {instructions literals : List Text}
      (hinstructions : h.instructions = instructions.map .string)
      (hliterals : h.literals = literals.map .string) (hdistinct : literals.Nodup) :
      Outcome h (.ok ⟨instructions, literals, h.source⟩)

variable {h : Handoff Json} {r : Except Text (Handoff Text)}

/-- What comes of a hand-off is what its outcome says. -/
theorem Outcome.check_eq (ho : Outcome h r) : h.check.mapError ShapeFault.message = r := by
  rw [check]
  cases ho with
  | instruction hv =>
    rw [hv.textsFrom_eq, Nat.zero_add]
    rfl
  | literal hinstructions hv =>
    rw [textsFrom_eq_ok.mpr hinstructions, hv.textsFrom_eq, Nat.zero_add]
    rfl
  | repeated hinstructions hliterals hline =>
    have hfirst := firstRepeat?_eq_some_iff.mpr ⟨_, hline⟩
    rw [textsFrom_eq_ok.mpr hinstructions, textsFrom_eq_ok.mpr hliterals]
    simp only [bind, Except.bind, checkRepeats, hfirst]
    rfl
  | @whole instructions literals hinstructions hliterals hdistinct =>
    have hwhole : checkRepeats ⟨instructions, literals, h.source⟩
        = .ok ⟨instructions, literals, h.source⟩ := checkRepeats_of_nodup hdistinct
    rw [textsFrom_eq_ok.mpr hinstructions, textsFrom_eq_ok.mpr hliterals]
    simp only [bind, Except.bind, hwhole]
    rfl

/-- Every hand-off has an outcome. -/
theorem exists_outcome (h : Handoff Json) : ∃ r, Outcome h r := by
  rcases texts_or_firstOther h.instructions with ⟨instructions, hinstructions⟩ | ⟨i, v, hv⟩
  swap
  · exact ⟨_, .instruction hv⟩
  rcases texts_or_firstOther h.literals with ⟨literals, hliterals⟩ | ⟨i, v, hv⟩
  swap
  · exact ⟨_, .literal hinstructions hv⟩
  rcases hfirst : firstRepeat? [] literals with _ | line
  · exact ⟨_, .whole hinstructions hliterals (firstRepeat?_eq_none.mp hfirst).1⟩
  · obtain ⟨j, hj⟩ := firstRepeat?_eq_some_iff.mp hfirst
    exact ⟨_, .repeated hinstructions hliterals hj⟩

/-- The check on values as they come is the check on texts. -/
theorem checkValues_eq (h : Handoff Json) :
    h.checkValues = (h.check.mapError ShapeFault.ofValues).map values := by
  rw [checkValues, check, requireTexts_eq, requireTexts_eq]
  rcases hinstructions : textsFrom .instructions 0 h.instructions with fault | instructions
  · rfl
  rcases hliterals : textsFrom .literals 0 h.literals with fault | literals
  · rfl
  -- Only texts are left when the search for repetitions begins.
  rw [textsFrom_eq_ok] at hinstructions hliterals
  have hsearch := requireDistinct_map_string h.source [] literals
  rw [← hliterals, List.map_nil] at hsearch
  simp only [bind, Except.bind, Except.mapError, Except.map, hsearch, checkRepeats]
  rcases firstRepeat? [] literals with _ | line
  · simp only [values, ← hinstructions, ← hliterals]
    rfl
  · rfl

/-- **A hand-off comes to exactly one outcome**, that of its first defect or that of a hand-off
without any.  Made on the values as they come the check gives the same answer, and in particular
never meets a value that cannot be kept in a set. -/
theorem check_outcome (h : Handoff Json) :
    (∀ r, h.check.mapError ShapeFault.message = r ↔ Outcome h r) ∧
    h.checkValues = (h.check.mapError ShapeFault.ofValues).map values ∧
    ∀ v, h.checkValues ≠ .error (.unhashable v) := by
  refine ⟨fun r => ⟨?_, Outcome.check_eq⟩, checkValues_eq h, fun v hv => ?_⟩
  · rintro rfl
    obtain ⟨r, hr⟩ := exists_outcome h
    rwa [hr.check_eq]
  · rw [checkValues_eq] at hv
    rcases hcheck : h.check with ⟨part, index, kind⟩ | ⟨source, line⟩ | h' <;>
      rw [hcheck] at hv <;> cases hv

/-- Of several defects the one that is reported is the first number among the instructions. -/
example : check ⟨[.string "a", .int 3, .null], [.array [], .array []], "a.c"⟩
    = .error (.notText .instructions 1 "int") := rfl

end Handoff

end LiteralSplice
