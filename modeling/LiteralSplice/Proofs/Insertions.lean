/-
Splicing as insertion, one line at a time.

* **`Insertion.each`**: lines put in one after the other, all of them at one index;
* **`Insertion.onward`**: lines put in one after the other, each right behind the one before;
* **`Insertion.each_append`**, **`Insertion.onward_append`**: the lines that have been put in stand
  in front of what was at the index, in reverse order and in order;
* **`splice_inserted`**: splicing puts the separator in, and then the literals in either way.

Design notes: at an index beyond the end `List.insertIdx` puts nothing in.  Lines that are all
there in the end have therefore been put in within the bounds, each at its time.
-/
import LiteralSplice.Proofs.Handoffs

namespace LiteralSplice

namespace Insertion

variable {α : Type}

/-- Lines put in one after the other, all of them at one index: each stands in front of those that
were put in before it. -/
def each (i : Nat) (lines : List α) (news : List α) : List α :=
  news.foldl (fun lines line => lines.insertIdx i line) lines

/-- Lines put in one after the other, each right behind the one before. -/
def onward (i : Nat) (lines : List α) : List α → List α
  | [] => lines
  | line :: news => onward (i + 1) (lines.insertIdx i line) news

theorem insertIdx_append {header : List α} {i : Nat} (hheader : header.length = i) (line : α)
    (rest : List α) : (header ++ rest).insertIdx i line = header ++ line :: rest := by
  induction header generalizing i with
  | nil =>
    obtain rfl : 0 = i := hheader
    exact List.insertIdx_zero
  | cons first header ih =>
    obtain rfl : header.length + 1 = i := hheader
    rw [List.cons_append, List.insertIdx_succ_cons, ih rfl, List.cons_append]

/-- What is put in at one index comes to stand there in reverse order. -/
theorem each_append {header : List α} {i : Nat} (hheader : header.length = i)
    (rest news : List α) : each i (header ++ rest) news = header ++ news.reverse ++ rest := by
  induction news generalizing rest with
  | nil => rw [List.reverse_nil, List.append_nil, each, List.foldl_nil]
  | cons line news ih =>
    calc each i (header ++ rest) (line :: news)
        = each i (header ++ line :: rest) news := by
          rw [each, List.foldl_cons, insertIdx_append hheader, each]
      _ = header ++ news.reverse ++ line :: rest := ih (line :: rest)
      _ = header ++ (line :: news).reverse ++ rest := by
          rw [List.reverse_cons, ← List.append_assoc, List.append_assoc _ [line],
            List.singleton_append]

/-- What is put in onward from an index comes to stand there in order. -/
theorem onward_append {header : List α} {i : Nat} (hheader : header.length = i)
    (rest news : List α) : onward i (header ++ rest) news = header ++ news ++ rest := by
  -- The header grows by each line, and so the index of the next one is again its length.
  induction news generalizing header i with
  | nil => rw [List.append_nil, onward]
  | cons line news ih =>
    have hgrown : (header ++ [line]).length = i + 1 := by
      rw [List.length_append, hheader, List.length_singleton]
    calc onward i (header ++ rest) (line :: news)
        = onward (i + 1) (header ++ [line] ++ rest) news := by
          rw [onward, insertIdx_append hheader, List.append_assoc, List.singleton_append]
      _ = header ++ [line] ++ news ++ rest := ih hgrown
      _ = header ++ line :: news ++ rest := by
          rw [List.append_assoc header, List.singleton_append]

end Insertion

variable {α : Type} [Line α]

/-- **Splicing is inserting one line at a time.**  The separator goes in behind the header, and then
the literals: from the last to the first all at the same index, or from the first to the last each
right behind the one before. -/
theorem splice_inserted {instructions : List α} (literals : List α)
    (hlength : 3 ≤ instructions.length) :
    splice instructions literals
        = .ok (Insertion.each 2 (instructions.insertIdx 2 Line.blank) literals.reverse) ∧
      splice instructions literals
        = .ok (Insertion.onward 2 (instructions.insertIdx 2 Line.blank) literals) := by
  have hheader : (instructions.take spliceIndex).length = 2 := by
    rw [List.length_take]
    exact Nat.min_eq_left (Nat.le_of_succ_le hlength)
  have hseparated : instructions.insertIdx 2 Line.blank
      = instructions.take spliceIndex ++ Line.blank :: instructions.drop spliceIndex := by
    rw [← Insertion.insertIdx_append hheader, List.take_append_drop]
  have hspliced : splice instructions literals
      = .ok (instructions.take spliceIndex ++ literals
        ++ Line.blank :: instructions.drop spliceIndex) := by
    rw [splice_of_length literals hlength, List.append_assoc _ [_], List.singleton_append]
  rw [hseparated, Insertion.each_append hheader, Insertion.onward_append hheader,
    List.reverse_reverse, hspliced]
  exact ⟨rfl, rfl⟩

/-- Instructions with a blank line at the place of the separator. -/
def repetitive : List Text := ["h", "h", [], "h"]

/-- Literals that are lines of those instructions, and one that is not. -/
def repetitivePool : List Text := ["h", [], "s"]

theorem splice_inserted_repetitive :
    3 ≤ repetitive.length ∧
      splice repetitive repetitivePool = .ok ["h", "h", "h", [], "s", [], [], "h"] ∧
      splice repetitive repetitivePool = .ok
        (Insertion.each 2 (repetitive.insertIdx 2 Line.blank) repetitivePool.reverse) ∧
      splice repetitive repetitivePool = .ok
        (Insertion.onward 2 (repetitive.insertIdx 2 Line.blank) repetitivePool) := by
  have hlength : 3 ≤ repetitive.length := by decide
  obtain ⟨heach, honward⟩ := splice_inserted repetitivePool hlength
  exact ⟨hlength, rfl, heach, honward⟩

end LiteralSplice
