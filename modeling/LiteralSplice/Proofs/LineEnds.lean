/-
Records and the ends of their lines.

* **`Records.ReadAs`**: what is read of a line with an end;
* **`Records.forall₂_readAs_iff`**: the lines are read as they are exactly if there is no return
  before a line feed alone;
* **`Records.load_ended`**: the records of a file whose lines have ends of both kinds.

Design notes: only the end of a line can change what is read of it.  A form feed, a separator of
Unicode or a return before another character is a character of its line like any other.
-/
import LiteralSplice.Proofs.Encodings
import LiteralSplice.Proofs.Listings
import LiteralSplice.Source
import Mathlib.Data.List.Forall2

namespace LiteralSplice

namespace Records

variable {lines : List (Text × LineEnd)} {last : Text}

/-- A line whose last character is taken for a part of its end. -/
def Blurred (line : Text × LineEnd) : Prop :=
  line.2 = .feed ∧ line.1.getLast? = some (CodePoint.ofChar '\r')

/-- What is read of a line: the line itself, or all but a return that is blurred with its end. -/
inductive ReadAs : Text × LineEnd → Text → Prop
  | whole {line : Text × LineEnd} (h : ¬ Blurred line) : ReadAs line line.1
  | cut (line : Text) : ReadAs (line ++ "\r", .feed) line

theorem readAs_readOf (line : Text × LineEnd) : ReadAs line (readOf line) := by
  rcases line with ⟨line, _ | _⟩
  · rw [readOf, dropReturn]
    split
    · rename_i hreturn
      obtain ⟨front, rfl⟩ := List.getLast?_eq_some_iff.mp hreturn
      rw [List.dropLast_concat]
      exact .cut front
    · rename_i hreturn
      exact .whole fun h => hreturn h.2
  · have hreturn : ¬ Blurred (line, .returnFeed) := by
      rintro ⟨hend, -⟩
      cases hend
    exact .whole hreturn

theorem ReadAs.eq_iff {line : Text × LineEnd} {record : Text} (h : ReadAs line record) :
    record = line.1 ↔ ¬ Blurred line := by
  cases h with
  | whole h => exact ⟨fun _ => h, fun _ => rfl⟩
  | cut =>
    refine ⟨fun hsame => ?_, fun h => absurd ⟨rfl, List.getLast?_concat⟩ h⟩
    have hlength := congrArg List.length hsame
    simp [Text.ofString] at hlength

/-- Lines are read as they are exactly if none of them is blurred with its end. -/
theorem forall₂_readAs_iff {records : List Text} (h : List.Forall₂ ReadAs lines records) :
    records = lines.map Prod.fst ↔ ∀ line ∈ lines, ¬ Blurred line := by
  induction h with
  | nil => exact ⟨fun _ => nofun, fun _ => rfl⟩
  | cons hline _ ih => rw [List.map_cons, List.cons.injEq, hline.eq_iff, ih, List.forall_mem_cons]

/-- What stands open after the last end, if anything does. -/
def openOf (last : Text) : List Text := if last = [] then [] else [last]

theorem ended_eq_nil : ended lines = [] ↔ lines = [] := by
  rw [ended, List.flatMap_eq_nil_iff]
  refine ⟨fun h => List.eq_nil_iff_forall_not_mem.mpr fun line hline => ?_, ?_⟩
  · obtain ⟨-, hend⟩ := List.append_eq_nil_iff.mp (h line hline)
    rcases line with ⟨line, _ | _⟩ <;> cases hend
  · rintro rfl line hline
    exact absurd hline List.not_mem_nil

/-- A file with nothing in it, and no other, has no record. -/
theorem records_eq_nil_iff {bytes : Bytes}
    (hencode : Utf8.encode (ended lines ++ last) = .ok bytes) :
    lines.map readOf ++ openOf last = [] ↔ bytes = [] := by
  have hnothing : lines.map readOf ++ openOf last = [] ↔ ended lines ++ last = [] := by
    rw [List.append_eq_nil_iff, List.append_eq_nil_iff, ended_eq_nil, List.map_eq_nil_iff, openOf]
    by_cases hlast : last = [] <;> simp [hlast]
  rw [hnothing]
  constructor
  · intro hempty
    rw [hempty] at hencode
    exact (Except.ok.inj hencode).symm
  · rintro rfl
    exact (Except.ok.inj (Utf8.decode_encode hencode)).symm

/-- **The records of a file are its lines, unless a return stands right before a line feed alone.**
Every line of the file is a record, and so is what stands open at its end; from a record nothing is
missing but a return that is taken for a part of the end of its line, and no other character ends a
record.  Only the empty file has no record. -/
theorem load_ended {t : FileTree} {path : Text} {bytes : Bytes}
    (hfeed : ∀ line ∈ lines, CodePoint.ofChar '\n' ∉ line.1)
    (hopen : CodePoint.ofChar '\n' ∉ last)
    (hencode : Utf8.encode (ended lines ++ last) = .ok bytes) (hread : t.read path = .ok bytes) :
    (∃ records, Records.load t path = .ok (records ++ openOf last) ∧
      List.Forall₂ ReadAs lines records) ∧
    (Records.load t path = .ok (lines.map Prod.fst ++ openOf last) ↔
      ∀ line ∈ lines, ¬ Blurred line) ∧
    (Records.load t path = .ok [] ↔ bytes = []) := by
  have hload : Records.load t path = .ok (lines.map readOf ++ openOf last) := by
    have hbytes : ofBytes bytes = .ok (lines.map readOf ++ openOf last) := by
      rw [ofBytes, Utf8.decode_encode hencode, openOf, ← ofText_ended hfeed hopen]
      rfl
    rw [Records.load, hread]
    simp only [Except.mapError, bind, Except.bind, hbytes]
  have hrecords : List.Forall₂ ReadAs lines (lines.map readOf) := by
    rw [List.forall₂_map_right_iff]
    exact List.forall₂_same.mpr fun line _ => readAs_readOf line
  refine ⟨⟨_, hload, hrecords⟩, ?_, ?_⟩
  · rw [hload, Except.ok.injEq, List.append_left_inj]
    exact forall₂_readAs_iff hrecords
  · rw [hload, Except.ok.injEq]
    exact records_eq_nil_iff hencode

/-- Lines with ends of both kinds: one with a form feed, one that is empty, one with a return of its
own, one with a separator of Unicode and a return inside. -/
def mixedLines : List (Text × LineEnd) :=
  [("a\u000cb", .feed), ([], .returnFeed), ("c\r", .returnFeed), ("d\u2028\re", .feed)]

/-- A directory with a file of these lines, a last one standing open. -/
def mixedTree : FileTree :=
  ⟨[(.ofNames ["w"], .directory), (.ofNames ["w", "p.text"],
    .file ((ended mixedLines ++ ("f\r" : Text)).flatMap Utf8.bytesOf))], ["w"]⟩

theorem load_ended_mixed :
    (∀ line ∈ mixedLines, CodePoint.ofChar '\n' ∉ line.1) ∧
    CodePoint.ofChar '\n' ∉ ("f\r" : Text) ∧
    (∃ bytes, Utf8.encode (ended mixedLines ++ "f\r") = .ok bytes ∧
      mixedTree.read "p.text" = .ok bytes) ∧
    Records.load mixedTree "p.text" = .ok ["a\u000cb", [], "c\r", "d\u2028\re", "f\r"] := by
  have hfeed : ∀ line ∈ mixedLines, CodePoint.ofChar '\n' ∉ line.1 := by decide
  have hopen : CodePoint.ofChar '\n' ∉ ("f\r" : Text) := by decide
  have hencode : Utf8.encode (ended mixedLines ++ "f\r")
      = .ok ((ended mixedLines ++ ("f\r" : Text)).flatMap Utf8.bytesOf) := rfl
  have hread : mixedTree.read "p.text"
      = .ok ((ended mixedLines ++ ("f\r" : Text)).flatMap Utf8.bytesOf) := rfl
  have hsharp : ∀ line ∈ mixedLines, ¬ Blurred line := by
    intro line hline
    rw [Blurred]
    revert line
    decide
  exact ⟨hfeed, hopen, ⟨_, hencode, hread⟩,
    (load_ended hfeed hopen hencode hread).2.1.mpr hsharp⟩

end Records

end LiteralSplice
