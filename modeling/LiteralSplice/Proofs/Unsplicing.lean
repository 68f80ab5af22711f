/-
Programs taken apart again.

* **`Handoff.CutFrom`**: lines give a hand-off when they are cut at a separator;
* **`Handoff.cutFrom_assemble`**: the lines of a program, cut where it says, give its hand-off;
* **`Json.ListsAs`**: what a value says as a listing;
* **`Emitter.readDocument_listing`**: a listing is read as the value that it was written for;
* **`Handoff.restored_of_listing`**: the listing of a program is read, and gives its hand-off.

Design notes: lines are cut by place alone.  A line of the hand-off may be blank or equal to
another, so the separator could not be found by looking for it.
-/
import LiteralSplice.Proofs.Renderings

namespace LiteralSplice

namespace Handoff

/-! ### Lines -/

/-- Lines give a hand-off when they are cut at a separator: the literals are between the header and
the separator, and the lines around them are the instructions. -/
structure CutFrom (h : Handoff Text) (lines : List Text) (count index : Nat) : Prop where
  index_eq : index = 2 + count
  index_lt : index < lines.length
  separator : lines[index]? = some []
  literals : (lines.take index).drop 2 = h.literals
  instructions : lines.take 2 ++ lines.drop (index + 1) = h.instructions

variable {h : Handoff Text} {p : Program Text}

/-- The lines of a program, cut at the place of its separator, give the hand-off. -/
theorem cutFrom_assemble (ha : h.assemble = .ok p) :
    h.CutFrom p.lines p.literalCount p.separatorIndex := by
  have hkept := keptIn_of_assemble ha
  obtain ⟨hlt, -⟩ := List.getElem?_eq_some_iff.mp hkept.separator
  exact ⟨rfl, hlt, hkept.separator, hkept.slice, hkept.instructions⟩

end Handoff

/-! ### Listings -/

/-- What a value says as a listing, in the three members that a listing has. -/
structure Json.ListsAs (d : Json) (source : Text) (lines : List Text) (count index : Nat) :
    Prop where
  keys : ∃ ms, d = .object ms ∧ ms.map Prod.fst = ["source", "lines", "splice"]
  source : d.find? "source" = some (.string source)
  lines : d.find? "lines" = some (.array (lines.map .string))
  splice : ∃ w, d.find? "splice" = some w ∧ w.find? "start" = some (.int 2) ∧
    w.find? "literal_count" = some (.int count) ∧ w.find? "separator_index" = some (.int index)

namespace Emitter

variable {p : Program Text}

theorem listing_listsAs (p : Program Text) :
    (listing p.layout).ListsAs p.source p.lines p.literalCount p.separatorIndex :=
  ⟨⟨_, rfl, rfl⟩, rfl, rfl, _, rfl, rfl, rfl, rfl⟩

/-- A listing is read as the value that it was written for, provided that a reader takes as many
digits as its greatest number has. -/
theorem readDocument_listing [Stack] (hlegible : Json.Legible p.separatorIndex) :
    Json.readDocument (jsonListing.contentOf p) = .ok (listing p.layout) := by
  have hopens : (jsonListing.contentOf p).head? = some (CodePoint.ofChar '\x7b') := rfl
  have hmark : ¬ (jsonListing.contentOf p).head? = some (CodePoint.ofNat 0xFEFF) := by
    rw [hopens]
    decide
  rw [Json.readDocument, if_neg hmark, read_listing hlegible]

end Emitter

namespace Handoff

variable {h : Handoff Text}

/-- **The listing of a program gives its hand-off.**  A hand-off with three instructions is never
refused on the way to its listing, whatever its lines and its source are.  The listing is read as a
value with a source, lines, and the place of the literals and nothing else; the lines, cut at that
place, are the instructions and the literals of the hand-off.  A reader takes numbers up to a limit
of digits, and no list in memory has a length beyond it. -/
theorem restored_of_listing [Stack] (hlength : 3 ≤ h.instructions.length) :
    ∃ p r d lines, h.assemble = .ok p ∧ Emitter.jsonListing.render p.layout = .ok r ∧
      (2 + h.literals.length < 10 ^ Text.digitLimit → Json.readDocument r.content = .ok d) ∧
      d.ListsAs h.source lines h.literals.length (2 + h.literals.length) ∧
      h.CutFrom lines h.literals.length (2 + h.literals.length) := by
  obtain ⟨p, ha, hsource, hcount, hindex⟩ : ∃ p, h.assemble = .ok p ∧ p.source = h.source ∧
      p.literalCount = h.literals.length ∧ p.separatorIndex = 2 + h.literals.length :=
    ⟨_, h.assemble_of_length hlength, rfl, rfl, rfl⟩
  have hlists := Emitter.listing_listsAs p
  have hcut := cutFrom_assemble ha
  rw [hsource, hcount, hindex] at hlists
  rw [hcount, hindex] at hcut
  refine ⟨p, _, Emitter.listing p.layout, p.lines, ha, Emitter.render_assembled .jsonListing ha, ?_,
    hlists, hcut⟩
  intro hshort
  refine Emitter.readDocument_listing ?_
  rw [hindex]
  exact Text.length_ofNat_le (by decide) hshort

/-- A hand-off with blank lines, with a blank literal, and with characters of every kind. -/
def blankLines : Handoff Text :=
  ⟨["\"\\", [], "\n\u2028", []], [[], "😀\u0001"], "a\"b"⟩

theorem restored_of_listing_blank :
    3 ≤ blankLines.instructions.length ∧
    ∃ p r d lines, blankLines.assemble = .ok p ∧ Emitter.jsonListing.render p.layout = .ok r ∧
      Json.readDocument r.content = .ok d ∧ d.ListsAs "a\"b" lines 2 4 ∧
      blankLines.CutFrom lines 2 4 := by
  have hlength : 3 ≤ blankLines.instructions.length := by decide
  have hshort : 4 < 10 ^ Text.digitLimit :=
    Nat.lt_of_lt_of_le (by decide : 4 < 10 ^ 1) (Nat.pow_le_pow_right (by decide) (by decide))
  obtain ⟨p, r, d, lines, ha, hrender, hread, hlists, hcut⟩ := restored_of_listing hlength
  exact ⟨hlength, p, r, d, lines, ha, hrender, hread hshort, hlists, hcut⟩

end Handoff

end LiteralSplice
