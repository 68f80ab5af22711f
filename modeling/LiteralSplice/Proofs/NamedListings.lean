/-
Listings that are named by one of their files.

* **`Path.Fits.of_size`**: a name that has no more bytes than one that can be looked up can be
  looked up, too;
* **`Companions.stemOf_named`**: the ending of either file is left out, in letters of either size;
* **`Companions.Sought.resolve_fits`**, **`Companions.Sought.resolve_too_long`**: the files of a
  listing are those of its directory under the stem and the endings in small letters;
* **`Companions.resolve_named`**: so the file that has been named is among them only if its ending
  is in small letters.

Design notes: the size of a name is counted in bytes, and making ASCII letters small does not change
it.  So the name of the file with the same ending can be looked up whenever the file itself has been
found.  The name of the file of literals is longer than that of the file of instructions, and may be
too long where that is not.
-/
import LiteralSplice.Proofs.Directories
import LiteralSplice.Proofs.FrontEnds

namespace LiteralSplice

/-! ### Letters of either size -/

theorem CodePoint.lowerAscii_cases (c : CodePoint) :
    c.lowerAscii = c ∨ 0x41 ≤ c.val ∧ c.val ≤ 0x5A ∧ c.lowerAscii.val = c.val + 0x20 := by
  rw [CodePoint.lowerAscii]
  split
  · rename_i hcapital
    refine Or.inr ⟨hcapital.1, hcapital.2, ?_⟩
    exact Nat.mod_eq_of_lt (by omega)
  · exact Or.inl rfl

namespace Text

theorem lowerAscii_append (s t : Text) : (s ++ t).lowerAscii = s.lowerAscii ++ t.lowerAscii :=
  List.map_append

theorem length_lowerAscii (t : Text) : t.lowerAscii.length = t.length := List.length_map _

/-- A text that is a dot and then no dot when it is made small is so before. -/
theorem eq_cons_of_lowerAscii {t rest : Text}
    (h : t.lowerAscii = CodePoint.ofChar '.' :: rest) (hrest : CodePoint.ofChar '.' ∉ rest) :
    ∃ r : Text, t = CodePoint.ofChar '.' :: r ∧ r.length = rest.length ∧
      CodePoint.ofChar '.' ∉ r := by
  rcases t with _ | ⟨c, r⟩
  · cases h
  obtain ⟨hdot, hr⟩ := List.cons.inj h
  refine ⟨r, ?_, by rw [← hr, List.length_map], fun hmem => hrest ?_⟩
  · rcases c.lowerAscii_cases with hsame | ⟨hleast, -, hsmall⟩
    · rw [← hsame, hdot]
    · -- The small letters come after the dot.
      have hval : c.lowerAscii.val = 0x2E := congrArg Fin.val hdot
      omega
  · rw [← hr]
    exact List.mem_map.mpr ⟨_, hmem, rfl⟩

end Text

namespace FileName

theorem length_bytesOf_of_lt {c : CodePoint} (h : c.val < 0x80) : (bytesOf c).length = 1 := by
  have hplain : c.isSurrogate = false := by
    rw [CodePoint.isSurrogate, Bool.and_eq_false_iff, decide_eq_false_iff_not]
    exact .inl (by omega)
  rw [bytesOf_plain hplain, Utf8.bytesOf]
  simp only [if_pos h, List.length_singleton]

theorem length_bytesOf_lowerAscii (c : CodePoint) :
    (bytesOf c.lowerAscii).length = (bytesOf c).length := by
  rcases c.lowerAscii_cases with hsame | ⟨-, hgreatest, hsmall⟩
  · rw [hsame]
  · rw [length_bytesOf_of_lt (by omega), length_bytesOf_of_lt (by omega)]

theorem size_lowerAscii (t : Text) : size t.lowerAscii = size t := by
  rw [size, size, bytes, bytes, Text.lowerAscii, List.length_flatMap, List.length_flatMap,
    List.map_map]
  congr 1
  exact List.map_congr_left fun c _ => length_bytesOf_lowerAscii c

end FileName

/-! ### Names of one size -/

namespace Path

variable {d : Path} {name name' : Text}

/-- What stands before the name in a path below another does not depend on the name. -/
theorem text_below (d : Path) : ∃ lead, ∀ name, (d.below name).text = lead ++ name := by
  refine ⟨d.root ++ d.names.flatMap fun n => n ++ ("/" : Text), fun name => ?_⟩
  have hne : (d.below name).names ≠ [] := List.concat_ne_nil _ _
  rw [text, if_neg fun hempty => hne hempty.2, below, Text.join_concat, List.append_assoc]

/-- A name of no more bytes can be looked up, too. -/
theorem Fits.of_size (h : d.Fits name) (hsize : FileName.size name' ≤ FileName.size name) :
    d.Fits name' := by
  obtain ⟨lead, hlead⟩ := d.text_below
  have hshort := FileTree.exceeds_eq_false.mp h.short
  have hnear := FileTree.exceeds_eq_false.mp h.near
  rw [hlead, FileName.size_append] at hnear
  refine ⟨FileTree.exceeds_eq_false.mpr (by omega), FileTree.exceeds_eq_false.mpr ?_⟩
  rw [hlead, FileName.size_append]
  omega

/-- The suffix of a name with a stem is what comes from its last dot on. -/
theorem suffix_append {path : Path} {stem rest : Text}
    (hname : path.name = stem ++ CodePoint.ofChar '.' :: rest) (hstem : stem ≠ [])
    (hrest : rest ≠ []) (hdot : CodePoint.ofChar '.' ∉ rest) :
    path.suffix = CodePoint.ofChar '.' :: rest := by
  rw [suffix, hname, splitSuffix, Text.splitLast?_append_cons stem hdot]
  simp only [hstem, hrest, or_self, if_false]
  rfl

end Path

namespace FileTree

variable {t : FileTree} {d path : Path} {place : Location} {name : Text}

/-- A name under which something has been found can be looked up. -/
theorem LeadsTo.fits_of_find {found : Location × Entry} (h : t.LeadsTo d place)
    (hname : IsName name) (hfind : t.find (d.below name).text = .ok found) : d.Fits name := by
  by_contra hlong
  rw [h.find_too_long hname hlong] at hfind
  cases hfind

/-- Under a name that can be looked up there is a file, or not. -/
theorem LeadsTo.isFile_fits (h : t.LeadsTo d place) (hname : IsName name) (hfits : d.Fits name) :
    ∃ held, t.isFile (d.below name).text = .ok held := by
  rw [isFile, ask, h.find_below hname hfits]
  rcases t.entryAt? (place ++ [FileName.bytes name]) with _ | e <;> exact ⟨_, rfl⟩

theorem LeadsTo.isFile_too_long (h : t.LeadsTo d place) (hname : IsName name)
    (hlong : ¬ d.Fits name) :
    t.isFile (d.below name).text = .error (.refused .nameTooLong (d.below name).text) := by
  rw [isFile, ask, h.find_too_long hname hlong]

end FileTree

/-! ### The files of a listing -/

namespace Companions

/-- The two files of a listing. -/
inductive Part where
  | instructions
  | literals
  deriving DecidableEq, Repr

/-- The ending of a file of a listing. -/
def Part.ending : Part → Text
  | instructions => instructionEnding
  | literals => literalEnding

/-- The path of a file of a listing, if it has been found. -/
def fileOf (files : Companions) : Part → Option Path
  | .instructions => files.instructions
  | .literals => files.literals

variable {t : FileTree} {path : Path} {part : Part} {stem written : Text}

/-- A path leads to a file whose name is a stem with an ending of a listing, in letters of either
size. -/
structure Named (t : FileTree) (path : Path) (part : Part) (stem written : Text) : Prop where
  tidy : path.Tidy
  isFile : t.isFile path.text = .ok true
  name : path.name = stem ++ written
  ne_nil : stem ≠ []
  ending : written.lowerAscii = part.ending

theorem hasEnding_append {ending written : Text} (hstem : stem ≠ [])
    (h : written.lowerAscii = ending) : hasEnding ending (stem ++ written) = true := by
  have hlength : written.length = ending.length := by rw [← h, Text.length_lowerAscii]
  have hpos := List.length_pos_of_ne_nil hstem
  rw [hasEnding, Text.lowerAscii_append, h, Bool.and_eq_true, List.isSuffixOf_iff_suffix,
    decide_eq_true_iff, List.length_append]
  exact ⟨List.suffix_append _ _, by omega⟩

/-- The ending of either file is left out, in letters of either size. -/
theorem stemOf_named (hstem : stem ≠ []) (h : written.lowerAscii = part.ending) :
    stemOf (stem ++ written) = stem := by
  have hends := hasEnding_append hstem h
  have hfind : [instructionEnding, literalEnding].find?
      (fun ending => hasEnding ending (stem ++ written)) = some part.ending := by
    cases part with
    | instructions => exact List.find?_cons_of_pos hends
    | literals =>
      -- A name with the ending of literals has not the other one as well.
      have hother : ¬ hasEnding instructionEnding (stem ++ written) = true := by
        rw [hasEnding, Text.lowerAscii_append, h, Bool.and_eq_true, List.isSuffixOf_iff_suffix]
        rintro ⟨hsuffix, -⟩
        have hshorter := List.suffix_of_suffix_length_le hsuffix
          (List.suffix_append stem.lowerAscii Part.literals.ending) (by decide)
        exact absurd hshorter (by decide)
      rw [List.find?_cons, Bool.eq_false_iff.mpr hother]
      exact List.find?_cons_of_pos hends
  rw [stemOf, hfind]
  simp only
  rw [← h, Text.length_lowerAscii, List.length_append, Nat.add_sub_cancel, List.take_left']
  rfl

/-- A file has been found, or it is not there. -/
def Found (t : FileTree) (file : Path) (found : Option Path) : Prop :=
  (found = some file ∧ t.isFile file.text = .ok true) ∨
    (found = none ∧ t.isFile file.text = .ok false)

theorem existing?_of_isFile {file : Path} {held : Bool} (h : t.isFile file.text = .ok held) :
    ∃ found, existing? t file = .ok found ∧ Found t file found := by
  rw [existing?, h]
  cases held with
  | true => exact ⟨some file, rfl, Or.inl ⟨rfl, h⟩⟩
  | false => exact ⟨none, rfl, Or.inr ⟨rfl, h⟩⟩

/-- The path of a file of a listing with a stem, in the directory of a path. -/
def besides (path : Path) (stem : Text) (p : Part) : Path := path.parent.below (stem ++ p.ending)

/-- The files of a listing are looked for under a stem, in a directory that is there, and the name
of the file of instructions can be looked up. -/
structure Sought (t : FileTree) (path : Path) (stem : Text) : Prop where
  stem_eq : stemOf path.name = stem
  isName : ∀ p : Part, IsName (stem ++ p.ending)
  leadsTo : ∃ place, t.LeadsTo path.parent place
  fits : path.parent.Fits (stem ++ Part.instructions.ending)

namespace Sought

theorem resolve_eq (h : Sought t path stem) :
    resolve t path = do
      let instructions ← existing? t (besides path stem .instructions)
      let literals ← existing? t (besides path stem .literals)
      return ⟨stem, instructions, literals⟩ := by
  have hjoin : ∀ p : Part, path.parent.join (stem ++ p.ending) = besides path stem p :=
    fun p => Path.join_name _ (h.isName p)
  rw [resolve, h.stem_eq, ← hjoin, ← hjoin]
  rfl

/-- Where both names can be looked up, the files of the listing are those that are there. -/
theorem resolve_fits (h : Sought t path stem)
    (hfits : path.parent.Fits (stem ++ Part.literals.ending)) :
    ∃ files, resolve t path = .ok files ∧ files.stem = stem ∧
      ∀ p, Found t (besides path stem p) (files.fileOf p) := by
  obtain ⟨place, hplace⟩ := h.leadsTo
  obtain ⟨held, hheld⟩ := hplace.isFile_fits (h.isName .instructions) h.fits
  obtain ⟨held', hheld'⟩ := hplace.isFile_fits (h.isName .literals) hfits
  obtain ⟨found, hexisting, hfound⟩ := existing?_of_isFile hheld
  obtain ⟨found', hexisting', hfound'⟩ := existing?_of_isFile hheld'
  refine ⟨⟨stem, found, found'⟩, ?_, rfl, fun p => ?_⟩
  · rw [h.resolve_eq, besides, besides, hexisting, hexisting']
    rfl
  · cases p with
    | instructions => exact hfound
    | literals => exact hfound'

/-- Where the name of the file of literals is too long, nothing is resolved. -/
theorem resolve_too_long (h : Sought t path stem)
    (hlong : ¬ path.parent.Fits (stem ++ Part.literals.ending)) :
    resolve t path
      = .error (.refused .nameTooLong (besides path stem .literals).text) := by
  obtain ⟨place, hplace⟩ := h.leadsTo
  obtain ⟨held, hheld⟩ := hplace.isFile_fits (h.isName .instructions) h.fits
  obtain ⟨found, hexisting, -⟩ := existing?_of_isFile hheld
  have hrefused := hplace.isFile_too_long (h.isName .literals) hlong
  rw [h.resolve_eq, besides, besides, hexisting, existing?, hrefused]
  rfl

end Sought

namespace Named

theorem names_ne_nil (h : Named t path part stem written) : path.names ≠ [] := by
  intro hnil
  have hname := h.name
  rw [Path.name, hnil] at hname
  exact h.ne_nil (List.append_eq_nil_iff.mp hname.symm).1

theorem slash_not_mem (h : Named t path part stem written) :
    CodePoint.ofChar '/' ∉ stem ++ written := by
  have hlast := (h.tidy.names _ (List.getLast_mem h.names_ne_nil)).2.2
  rw [← h.name, Path.name, List.getLast?_eq_some_getLast h.names_ne_nil]
  exact hlast

/-- A file that has been found has a name that the system can be given. -/
theorem storable (h : Named t path part stem written) : (stem ++ written).Storable := by
  obtain ⟨q, bytes, hfind⟩ := FileTree.find_of_isFile h.isFile
  have hnames := (Path.storable_text h.tidy.storable_root).mp (FileTree.find_eq_ok.mp hfind).1
  have hlast := hnames _ (List.getLast_mem h.names_ne_nil)
  rw [← h.name, Path.name, List.getLast?_eq_some_getLast h.names_ne_nil]
  exact hlast

theorem length_ending (h : Named t path part stem written) : 2 < written.length := by
  rw [← Text.length_lowerAscii, h.ending]
  cases part <;> decide

theorem isName (h : Named t path part stem written) : IsName (stem ++ written) := by
  have hslash := h.slash_not_mem
  rw [List.mem_append, not_or] at hslash
  obtain ⟨hstem, hwritten⟩ := Text.storable_append.mp h.storable
  exact isName_append _ hslash.1 hstem hslash.2 hwritten h.length_ending

theorem isName_besides (h : Named t path part stem written) (p : Part) :
    IsName (stem ++ p.ending) := by
  have hslash := h.slash_not_mem
  rw [List.mem_append, not_or] at hslash
  have hstem := (Text.storable_append.mp h.storable).1
  cases p <;> exact isName_append _ hslash.1 hstem (by decide) (by decide) (by decide)

theorem eq_below (h : Named t path part stem written) :
    path = path.parent.below (stem ++ written) := by
  rw [← h.name]
  exact Path.eq_below h.names_ne_nil

/-- The file with the same stem and the ending in small letters is the file itself only if that has
its ending in small letters. -/
theorem besides_eq_iff (h : Named t path part stem written) :
    besides path stem part = path ↔ written = part.ending := by
  constructor
  · intro hsame
    have hnames := List.append_cancel_left (congrArg Path.names (hsame.trans h.eq_below))
    exact (List.append_cancel_left (List.singleton_injective hnames)).symm
  · intro hwritten
    rw [besides, ← hwritten, ← h.eq_below]

theorem leadsTo (h : Named t path part stem written) :
    ∃ place, t.LeadsTo path.parent place ∧ path.parent.Fits (stem ++ written) := by
  obtain ⟨q, bytes, hfind⟩ := FileTree.find_of_isFile h.isFile
  have hname : IsName path.name := h.name ▸ h.isName
  obtain ⟨place, hplace, -⟩ := FileTree.leadsTo_parent h.tidy hname hfind
  rw [h.eq_below] at hfind
  exact ⟨place, hplace, hplace.fits_of_find h.isName hfind⟩

/-- Of a file that has been found, the one with the ending in small letters can be looked up. -/
theorem fits (h : Named t path part stem written) :
    path.parent.Fits (stem ++ part.ending) := by
  obtain ⟨place, -, hfits⟩ := h.leadsTo
  refine hfits.of_size ?_
  rw [← h.ending, FileName.size_append, FileName.size_append, FileName.size_lowerAscii]

/-- The file of instructions has the shorter ending, so it can be looked up, too. -/
theorem fits_instructions (h : Named t path part stem written) :
    path.parent.Fits (stem ++ Part.instructions.ending) := by
  cases part with
  | instructions => exact h.fits
  | literals =>
    refine h.fits.of_size ?_
    rw [FileName.size_append, FileName.size_append]
    exact Nat.add_le_add_left (by decide) _

theorem sought (h : Named t path part stem written) : Sought t path stem := by
  obtain ⟨place, hplace, -⟩ := h.leadsTo
  exact ⟨by rw [h.name, stemOf_named h.ne_nil h.ending], h.isName_besides, ⟨place, hplace⟩,
    h.fits_instructions⟩

theorem resolve_fits (h : Named t path part stem written)
    (hfits : path.parent.Fits (stem ++ Part.literals.ending)) :
    ∃ files, resolve t path = .ok files ∧ files.stem = stem ∧
      ∀ p, Found t (besides path stem p) (files.fileOf p) :=
  h.sought.resolve_fits hfits

theorem resolve_too_long (h : Named t path part stem written)
    (hlong : ¬ path.parent.Fits (stem ++ Part.literals.ending)) :
    resolve t path
      = .error (.refused .nameTooLong (besides path stem .literals).text) :=
  h.sought.resolve_too_long hlong

/-- The suffix of a file of instructions is the ending that is written. -/
theorem suffix_eq (h : Named t path .instructions stem written) :
    path.suffix.lowerAscii = instructionEnding := by
  obtain ⟨rest, hrest, hlength, hdot⟩ := Text.eq_cons_of_lowerAscii h.ending (by decide)
  have hname := h.name
  rw [hrest] at hname
  rw [Path.suffix_append hname h.ne_nil (List.ne_nil_of_length_pos (by rw [hlength]; decide)) hdot,
    ← hrest, h.ending]
  rfl

/-- Unless its kind is given, a file of instructions is opened as a listing. -/
theorem source_eq {job : Job} (h : Named t path .instructions stem written)
    (hadapter : job.adapter = .unsaid) :
    Input.source job t path
      = ((resolve t path).mapError SourceFault.unresolved).mapError InputFault.source >>=
          fun files => .ok (.listing files none) := by
  have hknown : inputSuffixes.contains instructionEnding = true := by decide
  have hkind : SourceKind.ofPath path = .listing := by
    rw [SourceKind.ofPath, h.suffix_eq, if_neg (by decide)]
  rw [Input.source, h.isFile]
  simp only [Except.mapError, bind, Except.bind, Bool.not_true, Bool.false_eq_true, if_false,
    hadapter, h.suffix_eq, hknown, if_true, Source.ofPath, hkind, Source.openAs]
  rcases resolve t path with fault | files <;> rfl

end Named

end Companions

/-! ### What is read -/

namespace Source

/-- A source that has not been read answers with the hand-off that its files hold, if no literal is
repeated. -/
theorem answer_iff [Stack] {t : FileTree} {s : Source} {h : Handoff Text} (hs : s.Unread) :
    (s.handoff t).answer = .ok h ↔ Holds t s h ∧ h.literals.Nodup := by
  rw [holds_iff hs]
  constructor
  · intro hanswer
    rcases hload : s.load t with fault | ⟨loaded, notices⟩
    · rw [FrontEnd.answer_of_fault hload] at hanswer
      cases hanswer
    rw [FrontEnd.answer_of_load hload, mapError_eq_ok] at hanswer
    by_cases hnodup : loaded.contents.literals.Nodup
    · rw [Handoff.checkRepeats_of_nodup hnodup] at hanswer
      cases hanswer
      exact ⟨⟨loaded, notices, rfl, keeps_of_load hload⟩, hnodup⟩
    · obtain ⟨line, hline⟩ := Handoff.checkRepeats_of_not_nodup hnodup
      rw [hline] at hanswer
      cases hanswer
  · rintro ⟨⟨loaded, notices, hload, rfl, -⟩, hnodup⟩
    rw [FrontEnd.answer_of_load hload, Handoff.checkRepeats_of_nodup hnodup]
    rfl

end Source

namespace Input

variable {t : FileTree} {job : Job} {path : Path} {s : Source} {program : Program Text}

/-- The program of an input is that of the hand-off its files hold. -/
theorem read_iff [Stack] (hsource : source job t path = .ok s) (hs : s.Unread) :
    (read job t path).result = .ok program ↔
      ∃ h, Source.Holds t s h ∧ h.literals.Nodup ∧ h.assemble = .ok program := by
  constructor
  · intro hread
    obtain ⟨s', h, hsource', hanswer, ha⟩ := Batch.read_ok hread
    obtain rfl : s = s' := Except.ok.inj (hsource.symm.trans hsource')
    obtain ⟨hholds, hnodup⟩ := (Source.answer_iff hs).mp hanswer
    exact ⟨h, hholds, hnodup, ha⟩
  · rintro ⟨h, hholds, hnodup, ha⟩
    have hanswer := (Source.answer_iff hs).mpr ⟨hholds, hnodup⟩
    rw [read, hsource]
    simp only [hanswer, ha]

/-- A listing without a file of instructions has no program. -/
theorem read_unlisted [Stack] {files : Companions}
    (hsource : source job t path = .ok (.listing files none))
    (hnone : files.instructions = none) :
    (read job t path).result = .error (.source (.unlisted files.stem)) := by
  have hload : (Source.listing files none).load t = .error (.unlisted files.stem) := by
    rw [Source.load, Companions.load, hnone]
    rfl
  rw [read, hsource]
  simp only [FrontEnd.answer_of_fault hload]

end Input

namespace Companions

variable {t : FileTree} {path : Path} {part : Part} {stem written : Text} {files : Companions}

namespace Named

theorem found (h : Named t path part stem written) (hfiles : resolve t path = .ok files) :
    files.stem = stem ∧ ∀ p, Found t (besides path stem p) (files.fileOf p) := by
  by_cases hfits : path.parent.Fits (stem ++ Part.literals.ending)
  · obtain ⟨files', hfiles', hfound⟩ := h.resolve_fits hfits
    obtain rfl : files = files' := Except.ok.inj (hfiles.symm.trans hfiles')
    exact hfound
  · rw [h.resolve_too_long hfits] at hfiles
    cases hfiles

/-- The file itself is found exactly if it is where a listing is looked for. -/
theorem fileOf_eq_iff (h : Named t path part stem written) (hfiles : resolve t path = .ok files) :
    files.fileOf part = some path ↔ written = part.ending := by
  obtain ⟨-, hfound⟩ := h.found hfiles
  rw [← h.besides_eq_iff]
  rcases hfound part with ⟨hfile, -⟩ | ⟨hfile, hmissing⟩
  · rw [hfile, Option.some.injEq]
  · -- The file that has been named is there.
    rw [hfile]
    refine ⟨nofun, fun hsame => ?_⟩
    rw [hsame, h.isFile] at hmissing
    cases hmissing

/-- What a listing holds are the records of the file with the ending in small letters. -/
theorem lists_of_holds [Stack] {handoff : Handoff Text} (h : Named t path part stem written)
    (hfiles : resolve t path = .ok files) (hholds : Source.Holds t (.listing files none) handoff) :
    Source.Lists t (besides path stem .instructions) handoff.instructions := by
  obtain ⟨-, hfound⟩ := h.found hfiles
  -- In both cases the files hold a hand-off, so the file of instructions has been found.
  cases hholds with
  | instructions hlists =>
    rcases hfound .instructions with ⟨hfile, -⟩ | ⟨hfile, -⟩
    · cases hfile
      exact hlists
    · cases hfile
  | companions hlists _ =>
    rcases hfound .instructions with ⟨hfile, -⟩ | ⟨hfile, -⟩
    · cases hfile
      exact hlists
    · cases hfile

theorem source_of_resolve {job : Job} (h : Named t path .instructions stem written)
    (hadapter : job.adapter = .unsaid) (hfiles : resolve t path = .ok files) :
    Input.source job t path = .ok (.listing files none) := by
  rw [h.source_eq hadapter, hfiles]
  rfl

theorem read_unresolved [Stack] {job : Job} {fault : PathFault}
    (h : Named t path .instructions stem written) (hadapter : job.adapter = .unsaid)
    (hfault : resolve t path = .error fault) :
    (Input.read job t path).result = .error (.source (.unresolved fault)) := by
  have hsource : Input.source job t path = .error (.source (.unresolved fault)) := by
    rw [h.source_eq hadapter, hfault]
    rfl
  rw [Input.read, hsource]

end Named

/-- **A file of a listing is resolved to itself exactly if its ending is in small letters**, and the
name of the file of literals is not too long.  Else what is resolved is the file with the same stem
and the ending in small letters, or none if there is no such file.  What a run reads of a listing
that it takes without being told its kind are the records of that file, and not of the one it has
been given. -/
theorem resolve_named [Stack] (h : Named t path part stem written) :
    ((∃ files, resolve t path = .ok files ∧ files.fileOf part = some path) ↔
      written = part.ending ∧
        (part = .instructions → path.parent.Fits (stem ++ Part.literals.ending))) ∧
    (besides path stem part = path ↔ written = part.ending) ∧
    (∀ files, resolve t path = .ok files →
      files.stem = stem ∧ ∀ p, Found t (besides path stem p) (files.fileOf p)) ∧
    (¬ path.parent.Fits (stem ++ Part.literals.ending) →
      resolve t path = .error (.refused .nameTooLong (besides path stem .literals).text)) ∧
    ∀ job : Job, job.adapter = .unsaid → part = .instructions →
      (∀ fault, resolve t path = .error fault →
        (Input.read job t path).result = .error (.source (.unresolved fault))) ∧
      ∀ files, resolve t path = .ok files →
        (files.instructions = none →
          (Input.read job t path).result = .error (.source (.unlisted stem))) ∧
        (∀ program, (Input.read job t path).result = .ok program ↔
          ∃ handoff, Source.Holds t (.listing files none) handoff ∧ handoff.literals.Nodup ∧
            handoff.assemble = .ok program) ∧
        ∀ handoff, Source.Holds t (.listing files none) handoff →
          Source.Lists t (besides path stem .instructions) handoff.instructions := by
  have hfits : (part = .instructions → path.parent.Fits (stem ++ Part.literals.ending)) ↔
      path.parent.Fits (stem ++ Part.literals.ending) := by
    cases part with
    | instructions => simp
    | literals => exact ⟨fun _ => h.fits, fun hfits _ => hfits⟩
  refine ⟨?_, h.besides_eq_iff, fun files => h.found, h.resolve_too_long, ?_⟩
  · rw [hfits]
    constructor
    · rintro ⟨files, hfiles, hfile⟩
      refine ⟨(h.fileOf_eq_iff hfiles).mp hfile, ?_⟩
      by_contra hlong
      rw [h.resolve_too_long hlong] at hfiles
      cases hfiles
    · rintro ⟨hwritten, hshort⟩
      obtain ⟨files, hfiles, -⟩ := h.resolve_fits hshort
      exact ⟨files, hfiles, (h.fileOf_eq_iff hfiles).mpr hwritten⟩
  · rintro job hadapter rfl
    refine ⟨fun fault => h.read_unresolved hadapter, fun files hfiles => ?_⟩
    have hsource := h.source_of_resolve hadapter hfiles
    refine ⟨fun hnone => ?_, fun program => Input.read_iff hsource rfl,
      fun handoff => h.lists_of_holds hfiles⟩
    rw [Input.read_unlisted hsource hnone, (h.found hfiles).1]

/-- The lines `a`, `b` and `c`. -/
def threeLines : Bytes := [0x61, 0x0A, 0x62, 0x0A, 0x63, 0x0A]

/-- A directory with the two files of a listing. -/
def listed : FileTree where
  here := ["w"]
  entries := [(.ofNames ["w"], .directory), (.ofNames ["w", "p.text"], .file threeLines),
    (.ofNames ["w", "p.strings"], .file [0x73, 0x0A])]

theorem resolve_named_listed :
    let path : Path := ⟨"/", ["w", "p.text"]⟩
    let job : Job := ⟨.unsaid, ["plain_text"], none, false⟩
    Named listed path .instructions "p" ".text" ∧
    (∃ files, resolve listed path = .ok files ∧ files.instructions = some path) ∧
    (Input.read job listed path).result = .ok ⟨["a", "b", "s", [], "c"], 1, "p.text"⟩ := by
  intro path job
  have hnamed : Named listed path .instructions "p" ".text" :=
    ⟨⟨by decide, by unfold Path.Kept; decide⟩, by decide, by decide, by decide, by decide⟩
  obtain ⟨hitself, -, -, -, hread⟩ := resolve_named hnamed
  have hfiles : resolve listed path
      = .ok ⟨"p", some path, some ⟨"/", ["w", "p.strings"]⟩⟩ := by decide
  obtain ⟨-, hlisted⟩ := hread job rfl rfl
  obtain ⟨-, hprogram, -⟩ := hlisted _ hfiles
  have htext : Source.Lists listed path ["a", "b", "c"] := ⟨threeLines, by decide, by decide⟩
  have hstrings : Source.Lists listed ⟨"/", ["w", "p.strings"]⟩ ["s"] :=
    ⟨[0x73, 0x0A], by decide, by decide⟩
  refine ⟨hnamed, hitself.mpr ⟨rfl, fun _ => ⟨by decide, by decide⟩⟩, ?_⟩
  exact (hprogram _).mpr ⟨_, .companions htext hstrings, by decide, by rfl⟩

/-- A directory with a file of instructions whose ending is in capital letters. -/
def capitals : FileTree where
  here := ["w"]
  entries := [(.ofNames ["w"], .directory), (.ofNames ["w", "P.TEXT"], .file threeLines)]

/-- A directory with two files whose names differ in the letters of their endings only. -/
def twins : FileTree where
  here := ["w"]
  entries := [(.ofNames ["w"], .directory), (.ofNames ["w", "P.TEXT"], .file threeLines),
    (.ofNames ["w", "P.text"], .file [0x78, 0x0A, 0x79, 0x0A, 0x7A, 0x0A])]

/-- Of two files the one with the ending in capital letters is passed over for the other, and by
itself it is not found at all. -/
theorem resolve_capitals :
    let path : Path := ⟨"/", ["w", "P.TEXT"]⟩
    let job : Job := ⟨.unsaid, ["plain_text"], none, false⟩
    (capitals.isFile path.text = .ok true ∧ resolve capitals path = .ok ⟨"P", none, none⟩ ∧
      (Input.read job capitals path).result = .error (.source (.unlisted "P"))) ∧
    (twins.isFile path.text = .ok true ∧
      resolve twins path = .ok ⟨"P", some ⟨"/", ["w", "P.text"]⟩, none⟩ ∧
      (Input.read job twins path).result = .ok ⟨["x", "y", [], "z"], 0, "P.text"⟩) := by
  refine ⟨⟨by decide, by decide, rfl⟩, by decide, by decide, rfl⟩

end Companions

end LiteralSplice
