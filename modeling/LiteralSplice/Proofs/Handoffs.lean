/-
The shape of hand-offs, and the programs they become.

* **`Handoff.firstRepeat?_eq_none`**, **`Handoff.firstRepeat?_eq_some`**: no repetition is found
  exactly in a list without one, and the one that is found is the first;
* **`Handoff.check_map_string`**: for lines that are texts the check is the search for repetitions;
* **`splice_of_length`**: the merged lines of enough instructions;
* **`Handoff.assemble_of_length`**, **`Handoff.assemble_header`**: the lines of a program;
* **`Handoff.assemble_of_lt`**: too few instructions make none.
-/
import LiteralSplice.Program
import Mathlib.Data.List.Nodup

namespace LiteralSplice

theorem splice_of_length {α : Type} [Line α] {instructions : List α} (literals : List α)
    (hlength : leastInstructions ≤ instructions.length) :
    splice instructions literals = .ok (instructions.take spliceIndex ++ literals ++ [Line.blank]
      ++ instructions.drop spliceIndex) := by
  rw [splice, checkLength, if_neg (Nat.not_lt.mpr hlength)]
  rfl

namespace Handoff

/-! ### The check -/

theorem firstRepeat?_eq_none {seen lines : List Text} :
    firstRepeat? seen lines = none ↔ lines.Nodup ∧ ∀ t ∈ lines, t ∉ seen := by
  induction lines generalizing seen with
  | nil => simp [firstRepeat?]
  | cons t rest ih =>
    rw [firstRepeat?]
    by_cases ht : t ∈ seen
    · rw [if_pos ht]
      refine ⟨nofun, fun h => absurd ht (h.2 t List.mem_cons_self)⟩
    · rw [if_neg ht, ih, List.nodup_cons]
      constructor
      · -- The first line has been seen when the rest is gone through.
        rintro ⟨hrest, hseen⟩
        refine ⟨⟨fun hmem => hseen t hmem List.mem_cons_self, hrest⟩, fun x hx => ?_⟩
        rcases List.mem_cons.mp hx with rfl | hx
        · exact ht
        · exact fun hmem => hseen x hx (List.mem_cons_of_mem _ hmem)
      · rintro ⟨⟨hnot, hrest⟩, hseen⟩
        refine ⟨hrest, fun x hx hmem => ?_⟩
        rcases List.mem_cons.mp hmem with rfl | hmem
        · exact hnot hx
        · exact hseen x (List.mem_cons_of_mem _ hx) hmem

/-- The repetition that is found is the first line that equals an earlier one, or one that has been
seen before all of them. -/
theorem firstRepeat?_eq_some {seen lines : List Text} {line : Text} :
    firstRepeat? seen lines = some line ↔ ∃ before after, lines = before ++ line :: after ∧
      before.Nodup ∧ (∀ t ∈ before, t ∉ seen) ∧ (line ∈ before ∨ line ∈ seen) := by
  induction lines generalizing seen with
  | nil =>
    constructor
    · intro hfound
      cases hfound
    · rintro ⟨before, after, heq, -⟩
      simp at heq
  | cons first rest ih =>
    rw [firstRepeat?]
    by_cases hfirst : first ∈ seen
    · rw [if_pos hfirst, Option.some.injEq]
      constructor
      · rintro rfl
        exact ⟨[], rest, rfl, List.nodup_nil, List.forall_mem_nil _, .inr hfirst⟩
      · rintro ⟨_ | ⟨t, before⟩, after, heq, -, hout, -⟩
        · exact (List.cons.inj heq).1
        · obtain ⟨rfl, -⟩ := List.cons.inj heq
          exact absurd hfirst (hout first List.mem_cons_self)
    · rw [if_neg hfirst, ih]
      constructor
      · -- The first line joins those before the repetition.
        rintro ⟨before, after, rfl, hnodup, hout, hline⟩
        refine ⟨first :: before, after, rfl, ?_, ?_, ?_⟩
        · exact List.nodup_cons.mpr ⟨fun hmem => hout first hmem List.mem_cons_self, hnodup⟩
        · refine List.forall_mem_cons.mpr ⟨hfirst, fun t ht hmem => ?_⟩
          exact hout t ht (List.mem_cons_of_mem _ hmem)
        · rcases hline with hline | hline
          · exact .inl (List.mem_cons_of_mem _ hline)
          · rcases List.mem_cons.mp hline with rfl | hline
            · exact .inl List.mem_cons_self
            · exact .inr hline
      · rintro ⟨_ | ⟨t, before⟩, after, heq, hnodup, hout, hline⟩
        · obtain ⟨rfl, -⟩ := List.cons.inj heq
          exact absurd (hline.resolve_left List.not_mem_nil) hfirst
        · obtain ⟨rfl, rfl⟩ := List.cons.inj heq
          obtain ⟨hnot, hnodup⟩ := List.nodup_cons.mp hnodup
          refine ⟨before, after, rfl, hnodup, fun t ht hmem => ?_, ?_⟩
          · rcases List.mem_cons.mp hmem with rfl | hmem
            · exact hnot ht
            · exact hout t (List.mem_cons_of_mem _ ht) hmem
          · rcases hline with hline | hline
            · rcases List.mem_cons.mp hline with rfl | hline
              · exact .inr List.mem_cons_self
              · exact .inl hline
            · exact .inr (List.mem_cons_of_mem _ hline)

theorem checkRepeats_of_nodup {h : Handoff Text} (hnodup : h.literals.Nodup) :
    h.checkRepeats = .ok h := by
  have hnone : firstRepeat? [] h.literals = none :=
    firstRepeat?_eq_none.mpr ⟨hnodup, fun _ _ => List.not_mem_nil⟩
  rw [checkRepeats, hnone]

theorem checkRepeats_of_not_nodup {h : Handoff Text} (hnodup : ¬ h.literals.Nodup) :
    ∃ line, h.checkRepeats = .error (.repeated h.source line) := by
  rcases hfirst : firstRepeat? [] h.literals with _ | line
  · exact absurd (firstRepeat?_eq_none.mp hfirst).1 hnodup
  · exact ⟨line, by rw [checkRepeats, hfirst]⟩

theorem textsFrom_map_string (part : Part) (index : Nat) (lines : List Text) :
    textsFrom part index (lines.map .string) = .ok lines := by
  induction lines generalizing index with
  | nil => rfl
  | cons t rest ih =>
    rw [List.map_cons, textsFrom, ih]
    rfl

/-- For lines that are texts the check comes down to the search for repetitions. -/
theorem check_map_string (instructions literals : List Text) (source : Text) :
    check ⟨instructions.map .string, literals.map .string, source⟩
      = checkRepeats ⟨instructions, literals, source⟩ := by
  simp only [check, textsFrom_map_string]
  rfl

/-! ### The program -/

theorem assemble_spliced {α : Type} [Line α] {h : Handoff α}
    (hlength : leastInstructions ≤ h.instructions.length) :
    h.assemble = .ok ⟨h.instructions.take spliceIndex ++ h.literals ++ [Line.blank]
      ++ h.instructions.drop spliceIndex, h.literals.length, h.source⟩ := by
  rw [assemble, splice_of_length h.literals hlength]
  rfl

theorem assemble_of_length {h : Handoff Text}
    (hlength : leastInstructions ≤ h.instructions.length) :
    h.assemble = .ok ⟨h.instructions.take spliceIndex ++ h.literals ++ [[]]
      ++ h.instructions.drop spliceIndex, h.literals.length, h.source⟩ :=
  assemble_spliced hlength

theorem assemble_of_lt {α : Type} [Line α] {h : Handoff α}
    (hlength : h.instructions.length < leastInstructions) :
    h.assemble = .error ⟨h.instructions.length⟩ := by
  rw [assemble, splice, checkLength, if_pos hlength]
  rfl

theorem length_of_assemble {α : Type} [Line α] {h : Handoff α} {p : Program α}
    (ha : h.assemble = .ok p) : leastInstructions ≤ h.instructions.length := by
  by_contra hshort
  rw [assemble_of_lt (Nat.not_le.mp hshort)] at ha
  cases ha

/-- Instructions with a header and something after it are assembled into the header, the
literals, a blank line, and what is after the header. -/
theorem assemble_header {header body literals : List Text} {source : Text}
    (hheader : header.length = spliceIndex) (hbody : body ≠ []) :
    assemble ⟨header ++ body, literals, source⟩
      = .ok ⟨header ++ literals ++ [[]] ++ body, literals.length, source⟩ := by
  have hpos := List.length_pos_of_ne_nil hbody
  have hlength : leastInstructions ≤ (header ++ body).length := by
    rw [List.length_append, hheader, leastInstructions]
    omega
  rw [assemble_of_length hlength]
  simp only [← hheader, List.take_left', List.drop_left']

theorem literalBlock_of_lines {header literals rest : List Text} {source : Text}
    (hheader : header.length = spliceIndex) :
    Program.literalBlock ⟨header ++ literals ++ rest, literals.length, source⟩ = literals := by
  simp only [Program.literalBlock, ← hheader, List.append_assoc, List.drop_left', List.take_left']

end Handoff

end LiteralSplice
