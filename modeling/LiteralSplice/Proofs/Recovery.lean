/-
What a program keeps of its hand-off.

* **`Program.handoff`**: the hand-off that is read off a program by place;
* **`Handoff.KeptIn`**: a program has the literals, the instructions and the source of a hand-off,
  each where it says;
* **`Handoff.keptIn_of_assemble`**: so it is with the program that a hand-off is assembled into;
* **`Handoff.assemble_recoverable`**: a hand-off can be told from its program, and one that is too
  short has none.

Design notes: the header, the separator and the block of literals are found by counting lines.  A
line of the hand-off may be blank, hold line feeds, or equal any other line, and nothing here looks
at lines, so it is all said of lines of any kind.
-/
import LiteralSplice.Proofs.Handoffs

namespace LiteralSplice

variable {α : Type}

/-- The hand-off that is read off a program: the literals are between the header and the separator,
and what is around them are the instructions. -/
def Program.handoff (p : Program α) : Handoff α :=
  ⟨p.lines.take spliceIndex ++ p.lines.drop (p.separatorIndex + 1), p.literalBlock, p.source⟩

variable [Line α]

namespace Handoff

/-- A program has a hand-off in it. -/
structure KeptIn (h : Handoff α) (p : Program α) : Prop where
  literalBlock : p.literalBlock = h.literals
  /-- The literals are the lines from the end of the header up to the separator. -/
  slice : (p.lines.take p.separatorIndex).drop 2 = h.literals
  separator : p.lines[p.separatorIndex]? = some Line.blank
  instructions : p.lines.take 2 ++ p.lines.drop (p.separatorIndex + 1) = h.instructions
  length : p.lines.length = h.instructions.length + h.literals.length + 1
  source : p.source = h.source

variable {h h' : Handoff α} {p : Program α}

/-- What is kept of a hand-off is all of it. -/
theorem KeptIn.handoff_eq (hkept : h.KeptIn p) : p.handoff = h := by
  rcases h with ⟨instructions, literals, source⟩
  rw [Program.handoff, Handoff.mk.injEq]
  exact ⟨hkept.instructions, hkept.literalBlock, hkept.source⟩

/-- Lines that are put together from a header, literals, a separator and the rest come apart at the
places where they were put together. -/
theorem keptIn_append (literals rest : List α) (source : Text) {header : List α}
    (hheader : header.length = spliceIndex) :
    KeptIn ⟨header ++ rest, literals, source⟩
      ⟨header ++ literals ++ [Line.blank] ++ rest, literals.length, source⟩ := by
  have hbefore : (header ++ literals).length = spliceIndex + literals.length := by
    rw [List.length_append, hheader]
  have hthrough : (header ++ literals ++ [Line.blank]).length
      = spliceIndex + literals.length + 1 := by
    rw [List.length_append, hbefore, List.length_singleton]
  have hslice : ((header ++ literals ++ [Line.blank] ++ rest).take
      (spliceIndex + literals.length)).drop spliceIndex = literals := by
    rw [List.append_assoc _ _ rest, List.take_left' hbefore, List.drop_left' hheader]
  refine ⟨?_, hslice, ?_, ?_, ?_, rfl⟩
  · rw [List.drop_take, Nat.add_sub_cancel_left] at hslice
    exact hslice
  · rw [Program.separatorIndex, List.append_assoc _ _ rest, ← hbefore,
      List.getElem?_append_right (Nat.le_refl _), Nat.sub_self]
    rfl
  · show (header ++ literals ++ [Line.blank] ++ rest).take spliceIndex
      ++ (header ++ literals ++ [Line.blank] ++ rest).drop (spliceIndex + literals.length + 1)
      = header ++ rest
    rw [List.drop_left' hthrough, List.append_assoc, List.append_assoc, List.take_left' hheader]
  · show (header ++ literals ++ [Line.blank] ++ rest).length
      = (header ++ rest).length + literals.length + 1
    rw [List.length_append, hthrough, List.length_append, hheader]
    omega

/-- A hand-off is kept in the program that it is assembled into. -/
theorem keptIn_of_assemble (ha : h.assemble = .ok p) : h.KeptIn p := by
  have hlength := h.length_of_assemble ha
  have hheader : (h.instructions.take spliceIndex).length = spliceIndex := by
    rw [List.length_take]
    exact Nat.min_eq_left (Nat.le_of_succ_le hlength)
  have hkept := keptIn_append h.literals (h.instructions.drop spliceIndex) h.source hheader
  rw [List.take_append_drop] at hkept
  rw [assemble_spliced hlength] at ha
  cases ha
  exact hkept

/-- **A hand-off can be told from its program.**  One with three instructions is assembled into a
program that has its literals, its instructions around them and its source, each where the program
says, and no other hand-off has that program.  One with fewer is refused for the number of its
instructions. -/
theorem assemble_recoverable (h : Handoff α) :
    (3 ≤ h.instructions.length → ∃ p, h.assemble = .ok p ∧ h.KeptIn p ∧ p.handoff = h ∧
      ∀ h' : Handoff α, h'.assemble = .ok p → h' = h) ∧
    (h.instructions.length < 3 → ∃ fault, h.assemble = .error fault ∧
      fault.count = h.instructions.length ∧ fault.required = 3) := by
  constructor
  · intro hlength
    have hkept := keptIn_of_assemble (assemble_spliced hlength)
    refine ⟨_, assemble_spliced hlength, hkept, hkept.handoff_eq, fun h' ha' => ?_⟩
    rw [← (keptIn_of_assemble ha').handoff_eq, hkept.handoff_eq]
  · intro hshort
    exact ⟨⟨h.instructions.length⟩, assemble_of_lt hshort, rfl, rfl⟩

/-- A hand-off of blank lines, with a literal that equals its header and one with a line feed. -/
def indistinct : Handoff Text := ⟨[[], "h", [], []], ["h", [], "\n"], "a.c"⟩

theorem assemble_recoverable_indistinct :
    3 ≤ indistinct.instructions.length ∧
    (∃ p, indistinct.assemble = .ok p ∧ indistinct.KeptIn p ∧ p.handoff = indistinct ∧
      ∀ h' : Handoff Text, h'.assemble = .ok p → h' = indistinct) ∧
    ([[], "h"] : List Text).length < 3 ∧
    ∃ fault, assemble ⟨([[], "h"] : List Text), [], "a.c"⟩ = .error fault ∧
      fault.count = 2 ∧ fault.required = 3 := by
  have hlength : 3 ≤ indistinct.instructions.length := by decide
  have hshort : ([[], "h"] : List Text).length < 3 := by decide
  exact ⟨hlength, (assemble_recoverable indistinct).1 hlength, hshort,
    (assemble_recoverable ⟨[[], "h"], [], "a.c"⟩).2 hshort⟩

end Handoff

end LiteralSplice
