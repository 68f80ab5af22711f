/-
What saving the outputs of an input does to the tree.

* **`FileTree.Adds`**, **`FileTree.AddsUnder`**: a tree with files added, at places where there was
  nothing or under the paths to these;
* **`Saving.save_attempted`**: what can become of one output;
* **`Saving.LeftBehind`**: what stays behind of outputs that cannot be saved;
* **`Saving.saveAll_accounted`**: what can become of all of them.  Either every output is a new
  file, or the tree is what it was before, or the file of an output that cannot be encoded or
  written stays behind.

Design notes: files are only ever added at the end of the list of entries, so a tree that has
grown has the old entries as a prefix, and taking the new ones away gives the very same tree.
-/
import LiteralSplice.Batch.Saving
import LiteralSplice.Proofs.OutputNames

namespace LiteralSplice

namespace FileTree

variable {t t' : FileTree} {place : Location} {files : List (Location × Bytes)}

/-- A tree with files added, one after the other, at places where there was nothing. -/
structure Adds (t : FileTree) (files : List (Location × Bytes)) (t' : FileTree) : Prop where
  here : t'.here = t.here
  entries : t'.entries = t.entries ++ files.map fun f => (f.1, Entry.file f.2)
  distinct : (files.map Prod.fst).Nodup
  fresh : ∀ f ∈ files, t.entryAt? f.1 = none

/-- Every file of the first tree is in the second, with the same bytes. -/
def Keeps (t t' : FileTree) : Prop :=
  ∀ place bytes, t.entryAt? place = some (.file bytes) → t'.entryAt? place = some (.file bytes)

theorem lookup_files (files : List (Location × Bytes)) (place : Location) :
    (files.map fun f => (f.1, Entry.file f.2)).lookup place
      = (files.lookup place).map Entry.file := by
  induction files with
  | nil => rfl
  | cons f rest ih =>
    rw [List.map_cons, List.lookup_cons, List.lookup_cons, ih]
    by_cases hp : place == f.1 <;> simp [hp]

theorem Adds.refl (t : FileTree) : t.Adds [] t :=
  ⟨rfl, by simp, List.nodup_nil, fun _ h => absurd h List.not_mem_nil⟩

theorem putEntry_of_not_mem {place : Location} (e : Entry) {entries : List (Location × Entry)}
    (h : place ∉ entries.map Prod.fst) : putEntry place e entries = entries ++ [(place, e)] := by
  induction entries with
  | nil => rfl
  | cons first rest ih =>
    rw [List.map_cons, List.mem_cons, not_or] at h
    rw [putEntry, if_neg (Ne.symm h.1), ih h.2]
    rfl

theorem ne_nil_of_free (h : t.entryAt? place = none) : place ≠ [] := by
  rintro rfl
  cases h

theorem not_mem_of_free (h : t.entryAt? place = none) : place ∉ t.entries.map Prod.fst := by
  rw [entryAt?_of_ne_nil (ne_nil_of_free h), List.lookup_eq_none_iff] at h
  intro hmem
  obtain ⟨entry, hentry, rfl⟩ := List.mem_map.mp hmem
  simpa using h entry hentry

theorem put_of_free (e : Entry) (h : t.entryAt? place = none) :
    t.put place e = { t with entries := t.entries ++ [(place, e)] } := by
  rw [put, putEntry_of_not_mem e (not_mem_of_free h)]

theorem Adds.put (h : t.Adds files t') (bytes : Bytes) (hfree : t'.entryAt? place = none) :
    t.Adds (files ++ [(place, bytes)]) (t'.put place (.file bytes)) := by
  have hnotmem := not_mem_of_free hfree
  rw [h.entries, List.map_append, List.mem_append, not_or] at hnotmem
  rw [put_of_free _ hfree]
  refine ⟨h.here, by simp [h.entries], ?_, fun f hf => ?_⟩
  · rw [List.map_append, List.nodup_append]
    refine ⟨h.distinct, List.nodup_singleton _, fun a ha b hb => ?_⟩
    rw [List.map_singleton, List.mem_singleton] at hb
    rintro rfl
    refine hnotmem.2 ?_
    rw [List.map_map]
    obtain ⟨f, hf, rfl⟩ := List.mem_map.mp ha
    exact List.mem_map.mpr ⟨f, hf, hb⟩
  · rcases List.mem_append.mp hf with hf | hf
    · exact h.fresh f hf
    · rw [List.mem_singleton.mp hf, entryAt?_of_ne_nil (ne_nil_of_free hfree),
        List.lookup_eq_none_iff]
      rintro entry hentry
      simp only [bne_iff_ne, ne_eq]
      rintro rfl
      exact hnotmem.1 (List.mem_map.mpr ⟨entry, hentry, rfl⟩)

/-- What is at a place after files have been added. -/
theorem Adds.entryAt? (h : t.Adds files t') (place : Location) :
    t'.entryAt? place = (t.entryAt? place).or ((files.lookup place).map .file) := by
  by_cases hp : place = []
  · rw [hp]
    rfl
  · rw [entryAt?_of_ne_nil hp, entryAt?_of_ne_nil hp, h.entries, List.lookup_append, lookup_files]

theorem Adds.trans {t'' : FileTree} {others : List (Location × Bytes)} (h : t.Adds files t')
    (h' : t'.Adds others t'') : t.Adds (files ++ others) t'' := by
  have hthere : ∀ f ∈ others, f.1 ∉ t.entries.map Prod.fst ∧ f.1 ∉ files.map Prod.fst := by
    intro f hf
    have hnotmem := not_mem_of_free (h'.fresh f hf)
    rw [h.entries, List.map_append, List.mem_append, not_or, List.map_map] at hnotmem
    exact hnotmem
  refine ⟨h'.here.trans h.here, ?_, ?_, ?_⟩
  · rw [h'.entries, h.entries, List.map_append, List.append_assoc]
  · rw [List.map_append, List.nodup_append]
    refine ⟨h.distinct, h'.distinct, ?_⟩
    intro a ha b hb hab
    obtain ⟨f, hf, rfl⟩ := List.mem_map.mp hb
    exact (hthere f hf).2 (hab ▸ ha)
  · intro f hf
    rcases List.mem_append.mp hf with hf | hf
    · exact h.fresh f hf
    · rw [entryAt?_of_ne_nil (ne_nil_of_free (h'.fresh f hf)), List.lookup_eq_none_iff]
      intro entry hentry
      rw [bne_iff_ne]
      intro hsame
      exact (hthere f hf).1 (List.mem_map.mpr ⟨entry, hentry, hsame.symm⟩)

theorem Adds.length_entries (h : t.Adds files t') :
    t'.entries.length = t.entries.length + files.length := by
  rw [h.entries, List.length_append, List.length_map]

/-- A file under a path, at the place of the path. -/
def placed (f : Path × Bytes) : Location × Bytes := (f.1.place, f.2)

/-- A tree with files added under their paths. -/
abbrev AddsUnder (t : FileTree) (files : List (Path × Bytes)) (t' : FileTree) : Prop :=
  t.Adds (files.map placed) t'

theorem AddsUnder.put {path : Path} {files : List (Path × Bytes)} (h : t.AddsUnder files t')
    (bytes : Bytes) (hfree : t'.entryAt? path.place = none) :
    t.AddsUnder (files ++ [(path, bytes)]) (t'.put path.place (.file bytes)) := by
  rw [AddsUnder, List.map_append]
  exact Adds.put h bytes hfree

/-- A tree that has grown by a file is another tree. -/
theorem Adds.ne (h : t.Adds files t') (hne : files ≠ []) : t' ≠ t := by
  intro he
  have hlength := congrArg (fun u => u.entries.length) he
  have hpos := List.length_pos_of_ne_nil hne
  simp only [h.entries, List.length_append, List.length_map] at hlength
  omega

theorem keeps_of_prefix (h : t.entries <+: t'.entries) : t.Keeps t' := by
  intro place bytes hfile
  by_cases hp : place = []
  · rw [hp] at hfile
    cases hfile
  · rw [entryAt?_of_ne_nil hp] at hfile ⊢
    exact h.lookup_eq_some hfile

theorem eq_of_entries (hentries : t'.entries = t.entries) (hhere : t'.here = t.here) : t' = t := by
  rcases t with ⟨entries, here⟩
  rcases t' with ⟨entries', here'⟩
  simp only at hentries hhere
  rw [hentries, hhere]

theorem Adds.eq_of_nil (h : t.Adds [] t') : t' = t :=
  eq_of_entries (by simp [h.entries]) h.here

theorem Adds.isPrefix (h : t.Adds files t') : t.entries <+: t'.entries :=
  ⟨_, h.entries.symm⟩

end FileTree

/-- A fault of an output whose file has been made and is not taken away again. -/
def InputFault.Strands : InputFault → Prop
  | .unencodable _ => True
  | .unwritten (.torn _ _) => True
  | _ => False

namespace Saving

theorem takeBack_here (t : FileTree) (places : List Location) :
    (takeBack t places).here = t.here := by
  induction places generalizing t with
  | nil => rfl
  | cons place rest ih =>
    rw [takeBack, List.foldl_cons, ← takeBack, ih]
    rfl

theorem takeBack_entries (t : FileTree) (places : List Location) :
    (takeBack t places).entries = t.entries.filter fun e => !places.contains e.1 := by
  induction places generalizing t with
  | nil => simp [takeBack]
  | cons place rest ih =>
    rw [takeBack, List.foldl_cons, ← takeBack, ih, FileTree.erase, List.filter_filter]
    congr 1
    funext e
    simp [Bool.and_comm]

theorem filter_outside {places : List Location} {entries : List (Location × Entry)}
    (h : ∀ e ∈ entries, e.1 ∉ places) :
    entries.filter (fun e => !places.contains e.1) = entries := by
  rw [List.filter_eq_self]
  intro e he
  rw [Bool.not_eq_true', List.contains_eq_mem, decide_eq_false_iff_not]
  exact h e he

/-- Taking away the first files that have been added leaves the others. -/
theorem takeBack_adds {t t' : FileTree} {files others : List (Location × Bytes)}
    (h : t.Adds (files ++ others) t') : t.Adds others (takeBack t' (files.map Prod.fst)) := by
  have hold : t.entries.filter (fun e => !(files.map Prod.fst).contains e.1) = t.entries := by
    refine filter_outside fun e he hmem => ?_
    obtain ⟨f, hf, hfe⟩ := List.mem_map.mp hmem
    refine FileTree.not_mem_of_free (h.fresh f (List.mem_append_left _ hf)) ?_
    rw [hfe]
    exact List.mem_map.mpr ⟨e, he, rfl⟩
  have hnew : (files.map fun f => (f.1, Entry.file f.2)).filter
      (fun e => !(files.map Prod.fst).contains e.1) = [] := by
    rw [List.filter_eq_nil_iff]
    rintro e he
    obtain ⟨f, hf, rfl⟩ := List.mem_map.mp he
    rw [Bool.not_eq_true', Bool.not_eq_false, List.contains_iff_mem]
    exact List.mem_map.mpr ⟨f, hf, rfl⟩
  have hdistinct := h.distinct
  rw [List.map_append] at hdistinct
  obtain ⟨-, hothers, hapart⟩ := List.nodup_append.mp hdistinct
  have hkept : (others.map fun f => (f.1, Entry.file f.2)).filter
      (fun e => !(files.map Prod.fst).contains e.1) = others.map fun f => (f.1, .file f.2) := by
    refine filter_outside fun e he hmem => ?_
    obtain ⟨f, hf, rfl⟩ := List.mem_map.mp he
    exact hapart _ hmem _ (List.mem_map.mpr ⟨f, hf, rfl⟩) rfl
  refine ⟨?_, ?_, hothers, fun f hf => h.fresh f (List.mem_append_right _ hf)⟩
  · rw [takeBack_here, h.here]
  · rw [takeBack_entries, h.entries, List.map_append, List.filter_append, List.filter_append, hold,
      hnew, hkept, List.nil_append]

/-! ### One output -/

variable (disk : Disk) {t : FileTree} {d : Path} {stem : Text} {r : Rendering}

/-- The path of the output with a suffix, under the name that is tried after `k` others. -/
def pathOf (d : Path) (stem suffix : Text) (k : Nat) : Path :=
  d.below (OutputName.candidate stem suffix k)

/-- The file that an output becomes, under its path. -/
def SavedAs (d : Path) (stem : Text) (r : Rendering) (f : Path × Bytes) : Prop :=
  (∃ k, f.1 = pathOf d stem r.suffix k) ∧ Utf8.encode r.content = .ok f.2

/-- What can become of one output: no file is made for it, or a file is made and the output cannot
be encoded or is not taken as a whole, or it is saved. -/
inductive Attempted (t : FileTree) (d : Path) (stem : Text) (r : Rendering) :
    FileTree × Except InputFault (Path × Location) → Prop
  | unusable (reason : PathReason) (path : Text) :
      Attempted t d stem r (t, .error (.unusable (.refused reason path)))
  | refused (message : Text) : Attempted t d stem r (t, .error (.unwritten (.refused message)))
  | unencodable (k : Nat) (run : Utf8.SurrogateRun)
      (free : t.entryAt? (pathOf d stem r.suffix k).place = none)
      (content : Utf8.encode r.content = .error run) :
      Attempted t d stem r
        (t.put (pathOf d stem r.suffix k).place (.file []), .error (.unencodable run))
  | torn (k taken : Nat) (message : Text) (bytes : Bytes)
      (free : t.entryAt? (pathOf d stem r.suffix k).place = none)
      (content : Utf8.encode r.content = .ok bytes) :
      Attempted t d stem r
        (t.put (pathOf d stem r.suffix k).place (.file (bytes.take taken)),
          .error (.unwritten (.torn taken message)))
  | done (k : Nat) (bytes : Bytes) (free : t.entryAt? (pathOf d stem r.suffix k).place = none)
      (content : Utf8.encode r.content = .ok bytes) :
      Attempted t d stem r
        (t.put (pathOf d stem r.suffix k).place (.file bytes),
          .ok (pathOf d stem r.suffix k, (pathOf d stem r.suffix k).place))

theorem save_attempted (hd : d.Absolute) (hname : IsName (stem ++ r.suffix)) :
    Attempted t d stem r (save disk t d stem r) := by
  rw [save]
  split
  · rename_i fault hfirst
    obtain ⟨reason, s, rfl⟩ := OutputName.firstFreeFrom_error hfirst
    exact .unusable reason s
  · rename_i path hfirst
    obtain ⟨k, hpath, hfree, -⟩ := OutputName.firstFree_ok hd hname hfirst
    obtain rfl : path = pathOf d stem r.suffix k := hpath
    have habs : (pathOf d stem r.suffix k).Absolute :=
      hd.snoc (OutputName.isName_candidate hname k)
    split
    · rename_i fault hfor
      obtain ⟨reason, rfl⟩ := FileTree.placeFor_error habs.storable_text hfor
      exact .unusable reason _
    · rename_i place hfor
      obtain ⟨rfl, hnone⟩ :=
        FileTree.placeFor_free habs (List.concat_ne_nil _ _) hfree hfor
      split
      · exact .refused _
      · rename_i run hcontent _
        exact .unencodable k run hnone hcontent
      · rename_i taken message bytes _ hcontent
        exact .torn k taken message bytes hnone hcontent
      · rename_i bytes _ hcontent
        exact .done k bytes hnone hcontent

/-! ### All outputs of an input -/

/-- What stays behind of outputs that cannot be saved, where the file of one of them has been made.
If that one cannot be encoded, its file is empty and the files before it stay; if it is not taken
as a whole, its file is what has been taken, and the files before it do not stay. -/
inductive LeftBehind (t : FileTree) (d : Path) (stem : Text) :
    List Rendering → InputFault → FileTree → Prop
  | unencodable {done rest : List Rendering} {r : Rendering} {files : List (Path × Bytes)}
      {k : Nat} {run : Utf8.SurrogateRun} {t' : FileTree}
      (content : Utf8.encode r.content = .error run)
      (saved : List.Forall₂ (SavedAs d stem) done files)
      (adds : t.AddsUnder (files ++ [(pathOf d stem r.suffix k, [])]) t') :
      LeftBehind t d stem (done ++ r :: rest) (.unencodable run) t'
  | torn {done rest : List Rendering} {r : Rendering} {bytes : Bytes} {k taken : Nat}
      {message : Text} {t' : FileTree} (content : Utf8.encode r.content = .ok bytes)
      (adds : t.AddsUnder [(pathOf d stem r.suffix k, bytes.take taken)] t') :
      LeftBehind t d stem (done ++ r :: rest) (.unwritten (.torn taken message)) t'

/-- What can become of the outputs of an input, said of the tree from before. -/
def Accounted (t : FileTree) (d : Path) (stem : Text) (rs : List Rendering) (s : Saved) : Prop :=
  match s.result with
  | .ok paths =>
    ∃ files, List.Forall₂ (SavedAs d stem) rs files ∧ t.AddsUnder files s.tree ∧
      paths = files.map Prod.fst
  | .error fault =>
    fault.Strands ∧ LeftBehind t d stem rs fault s.tree ∨ ¬ fault.Strands ∧ s.tree = t

theorem LeftBehind.adds {rs : List Rendering} {fault : InputFault} {t' : FileTree}
    (h : LeftBehind t d stem rs fault t') :
    ∃ files, files ≠ [] ∧ files.length ≤ rs.length ∧ t.Adds files t' := by
  cases h with
  | unencodable _ hsaved hadds =>
    refine ⟨_, by simp, ?_, hadds⟩
    simp only [List.length_map, List.length_append, List.length_cons, List.length_nil,
      hsaved.length_eq]
    omega
  | torn _ hadds =>
    refine ⟨_, by simp, ?_, hadds⟩
    simp only [List.length_map, List.length_append, List.length_cons, List.length_nil]
    omega

/-- The outputs saved so far, as they are remembered while the others are being saved. -/
def remembered (files : List (Path × Bytes)) : List (Path × Location) :=
  (files.map fun f => (f.1, f.1.place)).reverse

theorem saveFrom_accounted {t' : FileTree} {files : List (Path × Bytes)}
    {before rs : List Rendering} (hd : d.Absolute)
    (hnames : ∀ r ∈ rs, IsName (stem ++ r.suffix))
    (hbefore : List.Forall₂ (SavedAs d stem) before files) (hadds : t.AddsUnder files t') :
    Accounted t d stem (before ++ rs) (saveFrom disk d stem t' (remembered files) rs) := by
  induction rs generalizing before files t' with
  | nil =>
    refine ⟨files, by simpa using hbefore, hadds, ?_⟩
    simp [remembered]
  | cons r rest ih =>
    have hattempt := save_attempted disk (t := t') hd (hnames r List.mem_cons_self)
    have hplaces : (remembered files).reverse.map (·.2)
        = (files.map FileTree.placed).map Prod.fst := by
      simp [remembered, FileTree.placed]
    -- Where no file is made for this output, all those before it are taken away again.
    have htaken : takeBack t' ((remembered files).reverse.map (·.2)) = t := by
      rw [hplaces]
      exact (takeBack_adds (by rwa [List.append_nil])).eq_of_nil
    rw [saveFrom]
    generalize save disk t' d stem r = attempt at hattempt
    cases hattempt with
    | unusable reason path => exact Or.inr ⟨not_false, htaken⟩
    | refused message => exact Or.inr ⟨not_false, htaken⟩
    | unencodable k run free content =>
      exact Or.inl ⟨trivial, .unencodable content hbefore (hadds.put [] free)⟩
    | torn k taken message bytes free content =>
      -- The files before this one are taken away again, and this one is not.
      have hkept := takeBack_adds (FileTree.Adds.put hadds (bytes.take taken) free)
      rw [← hplaces] at hkept
      exact Or.inl ⟨trivial, .torn content hkept⟩
    | done k bytes free content =>
      set f := (pathOf d stem r.suffix k, bytes) with hf
      have hsaved : List.Forall₂ (SavedAs d stem) (before ++ [r]) (files ++ [f]) :=
        List.rel_append hbefore (.cons ⟨⟨k, rfl⟩, content⟩ .nil)
      have hmore := ih (fun r' hr' => hnames r' (List.mem_cons_of_mem _ hr')) hsaved
        (hadds.put bytes free)
      have hrem : remembered (files ++ [f]) = (f.1, f.1.place) :: remembered files := by
        simp [remembered]
      rw [hrem, List.append_assoc] at hmore
      exact hmore

/-- Either every output is a new file, or the tree is as before, or the file of an output that
cannot be encoded or written stays behind. -/
theorem saveAll_accounted (t : FileTree) {rs : List Rendering} (hd : d.Absolute)
    (hnames : ∀ r ∈ rs, IsName (stem ++ r.suffix)) :
    Accounted t d stem rs (saveAll disk d stem t rs) :=
  saveFrom_accounted disk hd hnames .nil (FileTree.Adds.refl t)

end Saving

end LiteralSplice
