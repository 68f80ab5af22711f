/-
What the emitters make of assembled programs.

* **`Emitter.contentOf`**: the text that an emitter writes for a program;
* **`Emitter.render_program`**: no emitter refuses a program with a line after its separator;
* **`Batch.renderAll_assembled`**: outputs are wanting only where a format has no emitter;
* **`Emitter.read_listing`**: a listing is read as the value that it was written for;
* **`Emitter.plain_contentOf`**: what is written for a program without surrogates has none.

Design notes: an emitter may refuse a layout, but an assembled program is never refused.  It has a
header, a separator and an instruction, and its count of literals is the right one.
-/
import LiteralSplice.Proofs.Documents
import LiteralSplice.Proofs.JsonWriting
import LiteralSplice.Proofs.Recovery
import LiteralSplice.Proofs.Units

namespace LiteralSplice

/-! ### What is written -/

theorem Layout.textOf_map_string (lines : List Text) :
    Layout.textOf (lines.map .string) = .ok (lines.flatMap fun line => line ++ "\n") := by
  induction lines with
  | nil => rfl
  | cons line rest ih =>
    rw [List.map_cons, Layout.textOf, ih]
    rfl

namespace Emitter

/-- The text that an emitter writes for a program. -/
def contentOf (p : Program Text) : Emitter → Text
  | plainText => p.text
  | jsonListing => (listing p.layout).indented ++ "\n"

/-- A program with a line after its separator makes a listing that fits the schema. -/
theorem mismatches_listing {p : Program Text} (h : spliceIndex + 2 ≤ p.lines.length) :
    listingSchema.mismatches (listing p.layout) = [] := by
  refine Json.mismatches_record (by decide) (List.Subset.refl _) ?_
  intro m hm
  simp only [List.mem_cons, List.not_mem_nil, or_false] at hm
  rcases hm with rfl | rfl | rfl
  · exact ⟨_, rfl, rfl⟩
  · exact ⟨_, rfl, Json.mismatches_lines false h⟩
  · refine ⟨_, rfl, Json.mismatches_record (by decide) (List.Subset.refl _) ?_⟩
    intro m hm
    simp only [List.mem_cons, List.not_mem_nil, or_false] at hm
    rcases hm with rfl | rfl | rfl
    · exact ⟨_, rfl, Json.mismatches_exactly _⟩
    · have hcount : (0 : Int) ≤ p.literalCount := by omega
      exact ⟨_, rfl, Json.mismatches_integer hcount⟩
    · have hindex : (spliceIndex : Int) ≤ spliceIndex + p.literalCount := by omega
      exact ⟨_, rfl, Json.mismatches_integer hindex⟩

/-- No emitter refuses a program with a line after its separator. -/
theorem render_program (e : Emitter) {p : Program Text} (h : spliceIndex + 2 ≤ p.lines.length) :
    e.render p.layout = .ok ⟨e.suffix, e.contentOf p, e.mediaType⟩ := by
  have hcontent : e.content p.layout = .ok (e.contentOf p) := by
    cases e with
    | plainText =>
      show (Layout.textOf (p.lines.map .string)).mapError RenderFault.notText = _
      rw [Layout.textOf_map_string]
      rfl
    | jsonListing => simp only [content, mismatches_listing h, Json.decisive?, contentOf]
  rw [render, hcontent]
  rfl

theorem render_assembled (e : Emitter) {h : Handoff Text} {p : Program Text}
    (ha : h.assemble = .ok p) : e.render p.layout = .ok ⟨e.suffix, e.contentOf p, e.mediaType⟩ := by
  have hlength := h.length_of_assemble ha
  have hlines := (Handoff.keptIn_of_assemble ha).length
  refine e.render_program ?_
  rw [leastInstructions] at hlength
  omega

theorem madeOf_listing {good : Text → Prop} {fits : Nat → Prop} {p : Program Text}
    (hkeys : ∀ key ∈ (["source", "lines", "splice", "start", "literal_count",
      "separator_index"] : List Text), good key)
    (hsource : good p.source) (hlines : ∀ line ∈ p.lines, good line) (hstart : fits spliceIndex)
    (hcount : fits p.literalCount) (hindex : fits p.separatorIndex) :
    Json.MadeOf good fits (listing p.layout) := by
  simp only [List.forall_mem_cons] at hkeys
  obtain ⟨hs, hl, hp, hb, hc, hi, -⟩ := hkeys
  have hinner : (["start", "literal_count", "separator_index"] : List Text).Nodup := by decide
  have houter : (["source", "lines", "splice"] : List Text).Nodup := by decide
  have hsplice : Json.MadeOf good fits (.object [("start", .int spliceIndex),
      ("literal_count", .int p.literalCount), ("separator_index", .int p.separatorIndex)]) := by
    refine .object hinner ?_ ?_
    · exact List.forall_mem_cons.mpr ⟨hb, List.forall_mem_cons.mpr ⟨hc,
        List.forall_mem_singleton.mpr hi⟩⟩
    · exact List.forall_mem_cons.mpr ⟨.count hstart, List.forall_mem_cons.mpr ⟨.count hcount,
        List.forall_mem_singleton.mpr (.count hindex)⟩⟩
  refine .object houter ?_ ?_
  · exact List.forall_mem_cons.mpr ⟨hs, List.forall_mem_cons.mpr ⟨hl,
      List.forall_mem_singleton.mpr hp⟩⟩
  · exact List.forall_mem_cons.mpr ⟨.string hsource, List.forall_mem_cons.mpr
      ⟨.strings hlines, List.forall_mem_singleton.mpr hsplice⟩⟩

end Emitter

/-- A program whose source and lines have no surrogates. -/
structure Program.Plain (p : Program Text) : Prop where
  source : p.source.Plain
  lines : ∀ line ∈ p.lines, line.Plain

namespace Emitter

/-- What is written for a program without surrogates has none. -/
theorem plain_contentOf {p : Program Text} (h : p.Plain) (e : Emitter) : (e.contentOf p).Plain := by
  have hfeed : Text.Plain "\n" := Text.plain_of_all (by decide)
  cases e with
  | plainText =>
    intro c hc
    obtain ⟨line, hline, hc⟩ := List.mem_flatMap.mp hc
    exact (h.lines line hline).append hfeed c hc
  | jsonListing =>
    have hmade : Json.MadeOf Text.Plain (fun _ => True) (listing p.layout) := by
      refine madeOf_listing ?_ h.source h.lines trivial trivial trivial
      simp only [List.forall_mem_cons]
      exact ⟨Text.plain_of_all (by decide), Text.plain_of_all (by decide),
        Text.plain_of_all (by decide), Text.plain_of_all (by decide),
        Text.plain_of_all (by decide), Text.plain_of_all (by decide), nofun⟩
    exact (hmade.plain_write (Text.plain_of_all (by decide)) 0).append hfeed

theorem depth_listing (p : Program Text) : (listing p.layout).depth = 2 := by
  have hlines : Json.itemsDepth p.layout.lines = 0 := Json.itemsDepth_strings p.lines
  have hcount : p.layout.literalCount.toJson.depth = 0 := rfl
  simp only [listing, Json.depth, Json.membersDepth, hlines, hcount]
  rfl

/-- A listing is read as the value that it was written for. -/
theorem read_listing [Stack] {p : Program Text} (h : Json.Legible p.separatorIndex) :
    Json.read (jsonListing.contentOf p) = .ok (listing p.layout) := by
  have hle : ∀ n ≤ p.separatorIndex, Json.Legible n := by
    intro n hn
    exact (Text.length_ofNat_mono hn).trans h
  have hmade : Json.MadeOf (fun _ => True) Json.Legible (listing p.layout) :=
    madeOf_listing (fun _ _ => trivial) trivial (fun _ _ => trivial)
      (hle _ (Nat.le_add_right _ _)) (hle _ (Nat.le_add_left _ _)) h
  exact hmade.read_indented (Stack.le_levels (by rw [depth_listing]; decide))

end Emitter

namespace Batch

variable {p : Program Text}

/-- Outputs of an assembled program are wanting only where a format has no emitter. -/
theorem renderAll_assembled {h : Handoff Text} (ha : h.assemble = .ok p) (formats : List Text) :
    (∀ key ∈ formats, (Emitter.ofKey? key).isSome) ∧ (∃ outputs, renderAll formats p = .ok outputs)
      ∨ ∃ key ∈ formats, Emitter.ofKey? key = none ∧
        renderAll formats p = .error (.unknownEmitter key) := by
  induction formats with
  | nil => exact Or.inl ⟨nofun, [], rfl⟩
  | cons key rest ih =>
    rw [renderAll, List.mapM_cons, ← renderAll]
    rcases hkey : Emitter.ofKey? key with _ | e
    · exact Or.inr ⟨key, List.mem_cons_self, hkey, rfl⟩
    simp only [e.render_assembled ha]
    rcases ih with ⟨hall, outputs, hrest⟩ | ⟨missing, hmem, hnone, hrest⟩
    · refine Or.inl ⟨?_, _, by rw [hrest]; rfl⟩
      intro other hother
      rcases List.mem_cons.mp hother with rfl | hother
      · rw [hkey]
        rfl
      · exact hall other hother
    · exact Or.inr ⟨missing, List.mem_cons_of_mem key hmem, hnone, by rw [hrest]; rfl⟩

end Batch

end LiteralSplice
