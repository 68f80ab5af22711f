/-
Outputs that find room.

* **`FileTree.Grows.find_ok`**: what a path leads to it still leads to when the tree has grown;
* **`OutputName.firstFree_eq`**: where all names that are tried can be looked up, there is a first
  free one among them, and the search gives it;
* **`Saving.saveAll_room`**: outputs that have bytes are all saved where there is room for them;
* **`Batch.succeeds_room`**: an input whose outputs have room comes through.

Design notes: `OutputName.firstFree_ok` says what a search has found, if it has found anything.
Here it is shown to find something.  The search asks about one name after the other and stops at an
answer that is an error, so a name that is too long matters only if it is come to; there is always a
free one among as many names as there are entries and one more.
-/
import LiteralSplice.Proofs.FreeNames
import LiteralSplice.Proofs.Renderings
import LiteralSplice.Proofs.Runs

namespace LiteralSplice

namespace FileTree

variable {t t' : FileTree} {d : Path} {name : Text} {place : Location}

/-- There is a directory at the place of a path. -/
def Opens (t : FileTree) (d : Path) : Prop := t.find d.text = .ok (d.place, .directory)

/-! ### Trees that have grown -/

theorem Grows.entryAt? (h : t.Grows t') {e : Entry} (he : t.entryAt? place = some e) :
    t'.entryAt? place = some e := by
  by_cases hp : place = []
  · rw [hp] at he ⊢
    exact he
  · rw [entryAt?_of_ne_nil hp] at he ⊢
    exact h.entries.lookup_eq_some he

theorem Grows.step_ok (h : t.Grows t') {next : Location} (hs : t.step place name = .ok next) :
    t'.step place name = .ok next := by
  by_cases hsealed : t.entryAt? place = some .sealed
  · rw [step, if_pos hsealed] at hs
    rw [step, if_pos (h.entryAt? hsealed)]
    exact hs
  have hplace : t.entryAt? place = some .directory := by
    by_contra hnot
    rw [step, if_neg hsealed, if_pos hnot] at hs
    cases hs
  rw [step, hplace, if_neg (by decide), if_neg (not_not.mpr rfl)] at hs
  rw [step, h.entryAt? hplace, if_neg (by decide), if_neg (not_not.mpr rfl)]
  -- The tree is looked at once more for a name that is no dots.
  split at hs
  · rename_i hdot
    rw [if_pos hdot]
    exact hs
  rename_i hdot
  rw [if_neg hdot]
  split at hs
  · rename_i hdots
    rw [if_pos hdots]
    exact hs
  rename_i hdots
  rw [if_neg hdots]
  split at hs
  · cases hs
  rename_i hshort
  rw [if_neg hshort]
  rcases he : t.entryAt? (place ++ [FileName.bytes name]) with _ | e
  · rw [he] at hs
    cases hs
  · rw [he] at hs
    rw [h.entryAt? he]
    exact hs

theorem Grows.follow_ok (h : t.Grows t') {names : List Text} {q : Location}
    (hf : t.follow place names = .ok q) : t'.follow place names = .ok q := by
  induction names generalizing place with
  | nil => exact hf
  | cons name rest ih =>
    rw [follow, List.foldlM_cons] at hf ⊢
    rcases hs : t.step place name with reason | next
    · rw [hs] at hf
      cases hf
    · rw [hs] at hf
      rw [h.step_ok hs]
      exact ih hf

/-- What a path leads to it still leads to when the tree has grown. -/
theorem Grows.find_ok (h : t.Grows t') {path : Text} {found : Location × Entry}
    (hf : t.find path = .ok found) : t'.find path = .ok found := by
  obtain ⟨hzero, hnil, hshort, hfollow, he⟩ := find_eq_ok.mp hf
  have hstart : t'.start path = t.start path := by rw [start, start, h.here]
  refine find_eq_ok.mpr ⟨hzero, hnil, hshort, ?_, h.entryAt? he⟩
  rw [hstart]
  exact h.follow_ok hfollow

theorem Grows.opens (h : t.Grows t') (hopens : t.Opens d) : t'.Opens d := h.find_ok hopens

theorem Opens.leadsTo (hopens : t.Opens d) (hd : d.Absolute) : t.LeadsTo d d.place :=
  leadsTo_of_find hd.tidy hopens

end FileTree

/-! ### The first free name -/

namespace OutputName

variable {t : FileTree} {d : Path} {stem suffix : Text}

/-- **There is a first free name, and the search gives it**, if as many names as there are entries
and one more can be looked up. -/
theorem firstFree_eq (hd : d.Absolute) (hopens : t.Opens d) (hname : IsName (stem ++ suffix))
    (hfits : ∀ k ≤ t.entries.length, d.Fits (candidate stem suffix k)) :
    ∃ k ≤ t.entries.length,
      firstFree t d stem suffix = .ok (d.below (candidate stem suffix k)) ∧
      t.entryAt? (d.place ++ [FileName.bytes (candidate stem suffix k)]) = none ∧
      ∀ j < k, t.entryAt? (d.place ++ [FileName.bytes (candidate stem suffix j)]) ≠ none := by
  have hholds : ∀ k ≤ t.entries.length,
      t.holds (d.join (candidate stem suffix k)).text
        = .ok (t.entryAt? (d.place ++ [FileName.bytes (candidate stem suffix k)])).isSome := by
    intro k hk
    have hcandidate := isName_candidate hname k
    rw [Path.join_name d hcandidate]
    exact (hopens.leadsTo hd).holds_below hcandidate (hfits k hk)
  obtain ⟨j, -, hj, hvacant⟩ := exists_free (t := t) (m := 0) fun k _ => isName_candidate hname k
  have hle := nth_zero_le hvacant
  have hinfinite := free_infinite t d.place hname.no_slash hname.storable
  have hfree := (Nat.nth_mem_of_infinite hinfinite 0).free
  have hbefore : ∀ i < Nat.nth (Free t d.place stem suffix) 0,
      t.entryAt? (d.place ++ [FileName.bytes (candidate stem suffix i)]) ≠ none :=
    fun i hi hnone => not_free_of_lt hi ⟨isName_candidate hname i, hnone⟩
  set k := Nat.nth (Free t d.place stem suffix) 0
  have hk : k ≤ t.entries.length := by omega
  refine ⟨k, hk, ?_, hfree, hbefore⟩
  have hsearch : firstFree t d stem suffix = .ok (d.join (candidate stem suffix k)) := by
    refine firstFreeFrom_least (by omega) (fun j hj => ?_) ?_
    · rw [hholds j (by omega), Option.isSome_iff_ne_none.mpr (hbefore j hj)]
    · rw [hholds k hk, hfree]
      rfl
  rw [hsearch, Path.join_name d (isName_candidate hname k)]
  rfl

end OutputName

/-! ### Outputs -/

namespace Saving

variable {t : FileTree} {d : Path} {stem : Text}

/-- An output that has bytes is saved where there is room for it. -/
theorem save_room {r : Rendering} {bytes : Bytes} (hd : d.Absolute) (hopens : t.Opens d)
    (hname : IsName (stem ++ r.suffix))
    (hfits : ∀ k ≤ t.entries.length, d.Fits (OutputName.candidate stem r.suffix k))
    (hbytes : Utf8.encode r.content = .ok bytes) :
    ∃ k, t.entryAt? (pathOf d stem r.suffix k).place = none ∧
      save .sound t d stem r = (t.put (pathOf d stem r.suffix k).place (.file bytes),
        .ok (pathOf d stem r.suffix k, (pathOf d stem r.suffix k).place)) := by
  obtain ⟨k, hk, hfirst, hfree, -⟩ := OutputName.firstFree_eq hd hopens hname hfits
  have hplace := (hopens.leadsTo hd).placeFor_below (OutputName.isName_candidate hname k)
    (hfits k hk) hfree
  rw [← Path.place_below] at hfree hplace
  refine ⟨k, hfree, ?_⟩
  rw [save, hfirst]
  simp only [hplace, Disk.sound, hbytes]
  rfl

theorem saveFrom_room {rs : List Rendering} (saved : List (Path × Location)) (hd : d.Absolute)
    (hopens : t.Opens d) (hnames : ∀ r ∈ rs, IsName (stem ++ r.suffix))
    (hplain : ∀ r ∈ rs, Text.Plain r.content)
    (hfits : ∀ r ∈ rs, ∀ k < t.entries.length + rs.length,
      d.Fits (OutputName.candidate stem r.suffix k)) :
    ∃ paths, (saveFrom .sound d stem t saved rs).result = .ok paths := by
  -- By induction on the outputs; the names that fit are counted against entries and outputs together.
  induction rs generalizing t saved with
  | nil => exact ⟨_, rfl⟩
  | cons r rest ih =>
    obtain ⟨hname, hnames⟩ := List.forall_mem_cons.mp hnames
    obtain ⟨hcontent, hplain⟩ := List.forall_mem_cons.mp hplain
    obtain ⟨hfirst, hothers⟩ := List.forall_mem_cons.mp hfits
    rw [List.length_cons] at hfirst hothers
    obtain ⟨k, hfree, hsave⟩ := save_room hd hopens hname (fun k hk => hfirst k (by omega))
      (Utf8.encode_ok.mpr ⟨hcontent, rfl⟩)
    -- The tree has one entry more, and there is one output less to save.
    have hadds := (FileTree.Adds.refl t).put (r.content.flatMap Utf8.bytesOf) hfree
    have hlength := hadds.length_entries
    simp only [List.nil_append, List.length_singleton] at hlength
    rw [saveFrom, hsave]
    refine ih _ (hadds.grows.opens hopens) hnames hplain ?_
    intro other hother j hj
    exact hothers other hother j (by omega)

/-- **Outputs that have bytes are all saved where there is room for them.** -/
theorem saveAll_room {rs : List Rendering} (hd : d.Absolute) (hopens : t.Opens d)
    (hnames : ∀ r ∈ rs, IsName (stem ++ r.suffix)) (hplain : ∀ r ∈ rs, Text.Plain r.content)
    (hfits : ∀ r ∈ rs, ∀ k < t.entries.length + rs.length,
      d.Fits (OutputName.candidate stem r.suffix k)) :
    ∃ paths, (saveAll .sound d stem t rs).result = .ok paths :=
  saveFrom_room [] hd hopens hnames hplain hfits

end Saving

/-! ### Inputs -/

namespace Batch

variable {job : Job} {p : Progress} {path : Path} {program : Program Text}

/-- There is room for the outputs of an input: their directory is there, and as many names as may be
tried for each of them can be looked up. -/
structure Roomy (job : Job) (t : FileTree) (path : Path) : Prop where
  opens : t.Opens (directoryOf job path)
  fits : ∀ (e : Emitter) (k : Nat), k < t.entries.length + job.formats.length →
    (directoryOf job path).Fits (OutputName.candidate path.stem e.suffix k)

/-- A file for a format is under a name of its emitter, and holds what the emitter writes. -/
def WrittenAs (job : Job) (path : Path) (program : Program Text) (key : Text)
    (f : Path × Bytes) : Prop :=
  ∃ e, Emitter.ofKey? key = some e ∧
    (∃ k, f.1 = Saving.pathOf (directoryOf job path) path.stem e.suffix k) ∧
    Utf8.encode (e.contentOf program) = .ok f.2

theorem forall₂_writtenAs {h : Handoff Text} (ha : h.assemble = .ok program) {formats : List Text}
    {outputs : List Rendering} {files : List (Path × Bytes)}
    (hrendered : List.Forall₂ (RenderedAs program) formats outputs)
    (hsaved : List.Forall₂ (Saving.SavedAs (directoryOf job path) path.stem) outputs files) :
    List.Forall₂ (WrittenAs job path program) formats files := by
  induction hrendered generalizing files with
  | nil =>
    cases hsaved
    exact .nil
  | cons hr _ ih =>
    obtain ⟨e, hkey, hrender⟩ := hr
    rw [e.render_assembled ha] at hrender
    cases hrender
    cases hsaved with
    | cons hs hrest => exact .cons ⟨e, hkey, hs.1, hs.2⟩ (ih hrest)

/-- An input that comes through has a file for every format, if its program is not shown. -/
theorem Succeeds.writtenAs [Stack] {disk : Disk} {q : Progress} {h : Handoff Text}
    (hp : path.Absolute) (hd : (directoryOf job path).Absolute) (hsucceeds : Succeeds disk job p path q)
    (hread : (Input.read job p.tree path).result = .ok program) (ha : h.assemble = .ok program)
    (hkept : job.toStdout = false) :
    ∃ files, p.tree.AddsUnder files q.tree ∧
      List.Forall₂ (WrittenAs job path program) job.formats files := by
  rcases hsucceeds.outputs hp hd with
    ⟨hout, -⟩ | ⟨-, other, outputs, files, hread', hrender, hfiles, hadds, -⟩
  · rw [hkept] at hout
    cases hout
  · rw [hread] at hread'
    cases hread'
    exact ⟨files, hadds, forall₂_writtenAs ha (renderAll_ok hrender) hfiles⟩

/-- **An input with a program without surrogates comes through where there is room**, if every
format has an emitter. -/
theorem succeeds_room [Stack] {h : Handoff Text} (hp : path.Absolute)
    (hd : (directoryOf job path).Absolute)
    (hread : (Input.read job p.tree path).result = .ok program) (ha : h.assemble = .ok program)
    (hplain : program.Plain) (hkept : job.toStdout = false)
    (hformats : ∀ key ∈ job.formats, (Emitter.ofKey? key).isSome)
    (hroomy : Roomy job p.tree path) : ∃ q, Succeeds .sound job p path q := by
  obtain ⟨outputs, hrender⟩ : ∃ outputs, renderAll job.formats program = .ok outputs := by
    rcases renderAll_assembled ha job.formats with ⟨-, hok⟩ | ⟨key, hkey, hnone, -⟩
    · exact hok
    · have hsome := hformats key hkey
      rw [hnone] at hsome
      cases hsome
  have hrendered := renderAll_ok hrender
  -- Of an output only its emitter matters, which gives its suffix and its content.
  have hcontents : ∀ r ∈ outputs, ∃ e : Emitter, r.suffix = e.suffix ∧
      r.content = e.contentOf program := by
    intro r hr
    obtain ⟨i, hi, rfl⟩ := List.getElem_of_mem hr
    have hlength := hrendered.length_eq
    obtain ⟨e, -, he⟩ := hrendered.get (by omega) hi
    rw [e.render_assembled ha] at he
    exact ⟨e, congrArg Rendering.suffix (Except.ok.inj he).symm,
      congrArg Rendering.content (Except.ok.inj he).symm⟩
  obtain ⟨paths, hpaths⟩ : ∃ paths,
      (savedOf .sound job p.tree path outputs).result = .ok paths := by
    refine Saving.saveAll_room hd hroomy.opens (isName_output hp hrender) ?_ ?_
    · intro r hr
      obtain ⟨e, -, hcontent⟩ := hcontents r hr
      rw [hcontent]
      exact Emitter.plain_contentOf hplain e
    · intro r hr k hk
      obtain ⟨e, hsuffix, -⟩ := hcontents r hr
      rw [← hrendered.length_eq] at hk
      rw [hsuffix]
      exact hroomy.fits e k hk
  rw [savedOf, directoryOf] at hpaths
  have hprocess : ∃ q, process .sound job p path = .ok q ∧ q.failures = p.failures := by
    simp only [process, hread, hkept, Bool.false_eq_true, if_false, hrender, Progress.tell, hpaths]
    exact ⟨_, rfl, rfl⟩
  exact hprocess

end Batch

end LiteralSplice
