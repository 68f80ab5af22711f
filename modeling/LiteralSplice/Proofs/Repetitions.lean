/-
Repetitions in a list of texts.

* **`Text.lt_iff`**: the order of texts is that of lists of numbers;
* **`Json.hasTwins_map_string`**: where texts are in order, two that are the same are neighbours;
* **`Json.hasRepetition_map_string`**: the search for repetitions finds one exactly if there is
  one.
-/
import LiteralSplice.Json.Order
import LiteralSplice.Proofs.RunSorts
import Mathlib.Data.List.Lex
import Mathlib.Order.Fin.Basic
import Mathlib.Data.Set.List

namespace LiteralSplice

theorem Text.lt_iff {a b : Text} : Text.lt a b = true ↔ a < b := by
  induction a generalizing b with
  | nil =>
    rcases b with _ | ⟨y, b⟩
    · simp [Text.lt]
    · simp [Text.lt]
  | cons x a ih =>
    rcases b with _ | ⟨y, b⟩
    · simp [Text.lt]
    · rw [Text.lt, List.cons_lt_cons_iff, Bool.or_eq_true, Bool.and_eq_true, ih, beq_iff_eq,
        decide_eq_true_eq, Fin.lt_def]

theorem Text.lt_eq_false {a b : Text} : Text.lt a b = false ↔ b ≤ a := by
  rw [← Bool.not_eq_true, Text.lt_iff, not_lt]

namespace Json

theorem itemBelow?_string (a b : Text) :
    itemBelow? (.string a) (.string b) = some (Text.lt a b) := by
  simp [itemBelow?, isOrderable, below?]

theorem same_string (a b : Text) : same (.string a) (.string b) = (a == b) := by
  simp [same, alike]

/-- Texts are put in order by code point. -/
theorem orders_string : RunSort.Orders itemBelow? (· ∈ Set.range Json.string) where
  total := by
    rintro _ _ ⟨a, rfl⟩ ⟨b, rfl⟩
    rw [itemBelow?_string, itemBelow?_string]
    rcases lt_or_ge a b with hlt | hge
    · exact Or.inr ⟨congrArg some (Text.lt_iff.mpr hlt),
        congrArg some (Text.lt_eq_false.mpr hlt.le)⟩
    · exact Or.inl (congrArg some (Text.lt_eq_false.mpr hge))
  trans := by
    rintro _ _ _ ⟨a, rfl⟩ ⟨b, rfl⟩ ⟨c, rfl⟩ hab hbc
    rw [itemBelow?_string, Option.some.injEq, Text.lt_eq_false] at *
    exact hab.trans hbc

/-- Where texts are in order, two that are the same are neighbours. -/
theorem hasTwins_map_string {lines : List Text} (hsorted : lines.Pairwise (· ≤ ·)) :
    hasTwins (lines.map .string) = true ↔ ¬ lines.Nodup := by
  induction lines with
  | nil => simp [hasTwins]
  | cons a rest ih =>
    rcases rest with _ | ⟨b, rest⟩
    · simp [hasTwins]
    obtain ⟨hfirst, hrest⟩ := List.pairwise_cons.mp hsorted
    have ih := ih hrest
    rw [List.map_cons, List.map_cons, hasTwins, same_string, ← List.map_cons, Bool.or_eq_true, ih,
      beq_iff_eq, List.nodup_cons (a := a)]
    constructor
    · rintro (rfl | hrepeats) ⟨hnot, hnodup⟩
      · exact hnot List.mem_cons_self
      · exact hrepeats hnodup
    · intro hrepeats
      by_cases hab : a = b
      · exact Or.inl hab
      refine Or.inr fun hnodup => hrepeats ⟨fun hmem => ?_, hnodup⟩
      -- A text that comes again stands between itself and itself.
      rcases List.mem_cons.mp hmem with heq | hmem
      · exact hab heq
      · have hle := List.rel_of_pairwise_cons hrest hmem
        exact hab (le_antisymm (hfirst b List.mem_cons_self) hle)

/-- A repetition is found in a list of texts exactly if there is one. -/
theorem hasRepetition_map_string (lines : List Text) :
    hasRepetition (lines.map .string) = true ↔ ¬ lines.Nodup := by
  have hall : ∀ v ∈ lines.map Json.string, v ∈ Set.range Json.string := by
    intro v hv
    obtain ⟨t, -, rfl⟩ := List.mem_map.mp hv
    exact ⟨t, rfl⟩
  obtain ⟨sorted, hsort, hordered, hperm⟩ := orders_string.sort?_eq hall
  obtain ⟨texts, rfl⟩ : sorted ∈ Set.range (List.map Json.string) := by
    rw [Set.range_list_map]
    exact hordered.all
  have htexts : texts.Perm lines := by
    refine (List.map_perm_map_iff fun a b hab => ?_).mp hperm
    cases hab
    rfl
  have hpairwise : texts.Pairwise (· ≤ ·) := by
    refine (List.pairwise_map.mp hordered.pairwise).imp fun {a b} hahead => ?_
    have hbelow := hahead.2.2
    rwa [itemBelow?_string, Option.some.injEq, Text.lt_eq_false] at hbelow
  rw [hasRepetition, hsort]
  exact (hasTwins_map_string hpairwise).trans (not_congr htexts.nodup_iff)

end Json

end LiteralSplice
