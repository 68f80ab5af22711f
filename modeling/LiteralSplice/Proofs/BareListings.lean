/-
Listings without a file of literals.

* **`Companions.Bare`**: a path leads to a listing with a file of instructions and none of literals;
* **`Path.fits_iff`**: a name can be looked up exactly if it has at most 255 bytes and its path at
  most 4095;
* **`Companions.Bare.openAs_fits`**, **`Companions.Bare.openAs_too_long`**: then the file of
  literals is passed over, and else its name is refused;
* **`Companions.handoff_bare`**: a listing without a file of literals is opened exactly if that name
  can be looked up, and then hands off the records of its instructions and no literals.

Design notes: a path may name a listing by either file, in letters of either size, or by the stem.
Whatever it names, what counts is the stem that is left of its name.  The file of literals has the
longer ending, so its name can be too long where that of the file of instructions is not, and a name
that is too long is refused rather than not found.
-/
import LiteralSplice.Proofs.NamedListings

namespace LiteralSplice

/-- A name can be looked up exactly if neither it nor its path has too many bytes. -/
theorem Path.fits_iff {d : Path} {name : Text} :
    d.Fits name ↔ FileName.size name ≤ 255 ∧ FileName.size (d.below name).text ≤ 4095 := by
  constructor
  · intro hfits
    exact ⟨FileTree.exceeds_eq_false.mp hfits.short, FileTree.exceeds_eq_false.mp hfits.near⟩
  · rintro ⟨hshort, hnear⟩
    exact ⟨FileTree.exceeds_eq_false.mpr hshort, FileTree.exceeds_eq_false.mpr hnear⟩

namespace Companions

/-- A path leads to a listing with a file of instructions, and there is no file of literals. -/
structure Bare (t : FileTree) (path : Path) (bytes : Bytes) : Prop where
  tidy : path.Tidy
  instructions : t.read (besides path (stemOf path.name) .instructions).text = .ok bytes
  literals : t.isFile (besides path (stemOf path.name) .literals).text ≠ .ok true

namespace Bare

variable {t : FileTree} {path : Path} {bytes : Bytes}

/-- A file that is read has a name that the system can be given. -/
theorem storable (h : Bare t path bytes) : (stemOf path.name).Storable := by
  have hstorable : (besides path (stemOf path.name) .instructions).text.Storable := by
    by_contra hnot
    obtain ⟨fault, hfault, -⟩ := FileTree.read_not_storable (t := t) hnot
    cases h.instructions.symm.trans hfault
  have hroot : (besides path (stemOf path.name) .instructions).root.Storable := h.tidy.storable_root
  have hname := (Path.storable_text hroot).mp hstorable _
    (List.mem_append_right _ (List.mem_singleton_self _))
  exact (Text.storable_append.mp hname).1

theorem isName (h : Bare t path bytes) (p : Part) : IsName (stemOf path.name ++ p.ending) := by
  have hname : CodePoint.ofChar '/' ∉ path.name := by
    rcases hlast : path.names.getLast? with _ | last
    · rw [Path.name, hlast]
      exact List.not_mem_nil
    · rw [Path.name, hlast]
      exact (h.tidy.names _ (List.mem_of_getLast? hlast)).2.2
  have hstem := slash_not_mem_stemOf hname
  cases p <;> exact isName_append _ hstem h.storable (by decide) (by decide) (by decide)

/-- The file of instructions leads to the directory in which the files are looked for. -/
theorem sought (h : Bare t path bytes) : Sought t path (stemOf path.name) := by
  have hname := h.isName .instructions
  have hlast : (besides path (stemOf path.name) .instructions).name
      = stemOf path.name ++ Part.instructions.ending := by
    rw [Path.name, besides, Path.below, List.getLast?_concat]
    rfl
  have hparent : (besides path (stemOf path.name) .instructions).parent = path.parent := by
    rw [besides, Path.below, Path.parent, List.dropLast_concat]
  have htidy : (besides path (stemOf path.name) .instructions).Tidy :=
    h.tidy.parent.below (Path.kept_of_isName hname)
  obtain ⟨q, content, hfind⟩ :=
    FileTree.find_of_isFile (FileTree.isFile_of_read_eq h.instructions)
  obtain ⟨place, hplace, -⟩ := FileTree.leadsTo_parent htidy (hlast ▸ hname) hfind
  rw [hparent] at hplace
  exact ⟨rfl, h.isName, ⟨place, hplace⟩, hplace.fits_of_find hname hfind⟩

/-- Where the name of the file of literals can be looked up, it is passed over. -/
theorem openAs_fits (h : Bare t path bytes)
    (hfits : path.parent.Fits (stemOf path.name ++ Part.literals.ending)) :
    Source.openAs t path .listing = .ok (.listing ⟨stemOf path.name,
      some (besides path (stemOf path.name) .instructions), none⟩ none) := by
  obtain ⟨⟨stem, instructions, literals⟩, hfiles, hstem, hfound⟩ := h.sought.resolve_fits hfits
  obtain rfl : instructions = some (besides path (stemOf path.name) .instructions) := by
    rcases hfound .instructions with ⟨hfile, -⟩ | ⟨-, hmissing⟩
    · exact hfile
    · rw [FileTree.isFile_of_read_eq h.instructions] at hmissing
      cases hmissing
  obtain rfl : literals = none := by
    rcases hfound .literals with ⟨-, hheld⟩ | ⟨hfile, -⟩
    · exact absurd hheld h.literals
    · exact hfile
  obtain rfl : stem = stemOf path.name := hstem
  rw [Source.openAs, hfiles]
  rfl

/-- Where the name of the file of literals is too long, the listing is not opened. -/
theorem openAs_too_long (h : Bare t path bytes)
    (hlong : ¬ path.parent.Fits (stemOf path.name ++ Part.literals.ending)) :
    Source.openAs t path .listing = .error (.unresolved
      (.refused .nameTooLong (besides path (stemOf path.name) .literals).text)) := by
  rw [Source.openAs, h.sought.resolve_too_long hlong]
  rfl

end Bare

variable {t : FileTree} {path : Path} {bytes : Bytes} {text : Text}

/-- **A listing without a file of literals is opened exactly if the name of that file can be looked
up.**  Then it hands off the records of its file of instructions and no literals.  Else it is
refused for a file that is not there and need not be, because its name has more than 255 bytes or
its path more than 4095; the file of instructions, which is there, has three bytes fewer in
either. -/
theorem handoff_bare [Stack] (h : Bare t path bytes) (htext : Utf8.decode bytes = .ok text) :
    ((∃ s, Source.openAs t path .listing = .ok s) ↔
      FileName.size (stemOf path.name ++ literalEnding) ≤ 255 ∧
        FileName.size (besides path (stemOf path.name) .literals).text ≤ 4095) ∧
    (∀ s, Source.openAs t path .listing = .ok s →
      (s.handoff t).answer
        = .ok ⟨Records.ofText text, [], stemOf path.name ++ instructionEnding⟩) ∧
    (¬ (FileName.size (stemOf path.name ++ literalEnding) ≤ 255 ∧
        FileName.size (besides path (stemOf path.name) .literals).text ≤ 4095) →
      Source.openAs t path .listing = .error (.unresolved
        (.refused .nameTooLong (besides path (stemOf path.name) .literals).text))) := by
  have hrecords : Source.Lists t (besides path (stemOf path.name) .instructions)
      (Records.ofText text) := by
    refine ⟨bytes, h.instructions, ?_⟩
    rw [Records.ofBytes, htext]
    rfl
  rw [show literalEnding = Part.literals.ending from rfl, besides, ← Path.fits_iff]
  by_cases hfits : path.parent.Fits (stemOf path.name ++ Part.literals.ending)
  · have hopen := h.openAs_fits hfits
    refine ⟨iff_of_true ⟨_, hopen⟩ hfits, fun s hs => ?_, absurd hfits⟩
    obtain rfl := Except.ok.inj (hopen.symm.trans hs)
    refine (Source.answer_iff ?_).mpr ⟨.instructions hrecords, List.nodup_nil⟩
    rfl
  · have hrefused := h.openAs_too_long hfits
    have hnone : ∀ s, Source.openAs t path .listing ≠ .ok s := by
      intro s hs
      rw [hrefused] at hs
      cases hs
    exact ⟨iff_of_false (not_exists.mpr hnone) hfits, fun s hs => absurd hs (hnone s),
      fun _ => hrefused⟩

/-- A directory with a file of instructions, and a directory where the file of literals would be. -/
def barelyListed : FileTree where
  here := ["w"]
  entries := [(.ofNames ["w"], .directory), (.ofNames ["w", "é.text"], .file threeLines),
    (.ofNames ["w", "é.strings"], .directory)]

theorem handoff_bare_barely :
    let path : Path := Path.ofText "é.Strings"
    Bare barelyListed path threeLines ∧ Utf8.decode threeLines = .ok "a\nb\nc\n" ∧
    ∃ s, Source.openAs barelyListed path .listing = .ok s ∧
      (s.handoff barelyListed).answer = .ok ⟨["a", "b", "c"], [], "é.text"⟩ := by
  intro path
  have hbare : Bare barelyListed path threeLines :=
    ⟨Path.tidy_ofText _, by decide +kernel, by decide +kernel⟩
  have htext : Utf8.decode threeLines = .ok "a\nb\nc\n" := by decide
  obtain ⟨hopened, hanswer, -⟩ := handoff_bare hbare htext
  obtain ⟨s, hs⟩ := hopened.mpr ⟨by decide +kernel, by decide +kernel⟩
  exact ⟨hbare, htext, s, hs, (hanswer s hs).trans (congrArg Except.ok (by decide +kernel))⟩

/-- A stem of as many bytes as a file of instructions can have before its ending. -/
def longStem : Text := List.replicate 250 (CodePoint.ofChar 'a')

/-- A directory with nothing but a file of instructions with that stem. -/
def longListed : FileTree where
  here := ["w"]
  entries := [(.ofNames ["w"], .directory),
    (.ofNames ["w", longStem ++ instructionEnding], .file threeLines)]

/-- A file of instructions with a name of 255 bytes is there, and its listing is not opened. -/
theorem openAs_longStem :
    let path : Path := ⟨[], [longStem ++ instructionEnding]⟩
    FileName.size path.name = 255 ∧ Bare longListed path threeLines ∧
    Utf8.decode threeLines = .ok "a\nb\nc\n" ∧
    Source.openAs longListed path .listing
      = .error (.unresolved (.refused .nameTooLong (longStem ++ literalEnding))) := by
  intro path
  have hbare : Bare longListed path threeLines :=
    ⟨⟨.inl rfl, by unfold Path.Kept; decide +kernel⟩, by decide +kernel, by decide +kernel⟩
  have hlong : ¬ path.parent.Fits (stemOf path.name ++ Part.literals.ending) := by
    rw [Path.fits_iff]
    decide +kernel
  have hwritten : (besides path (stemOf path.name) .literals).text = longStem ++ literalEnding := by
    decide +kernel
  rw [← hwritten]
  exact ⟨by decide +kernel, hbare, by decide, hbare.openAs_too_long hlong⟩

end Companions

end LiteralSplice
