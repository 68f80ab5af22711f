/-
Outputs that are saved one after the other under one stem and one suffix.

* **`Saving.save_free`**: an output goes under the first free name;
* **`OutputName.nth_put`**: then the other free names are as free as before;
* **`Saving.saveEach_refused`**: none goes under a name that the system cannot be given;
* **`Saving.saveEach_numbered`**: a number of outputs goes under as many of the first free names,
  in their order, and what has been there before stays;
* **`Saving.saveEach_unnumbered`**: a stem, a path and a directory for which that is not so.

Design notes: which names are free is a question of numbers, so the first free names are those
with the first numbers for which there is nothing, counted by `Nat.nth`.  To take the first of them
away is to count from the next one on.  The system can be given all of the names or none of them,
according to the stem and the suffix.
-/
import LiteralSplice.Proofs.FreeNames
import LiteralSplice.Proofs.Room

namespace LiteralSplice

namespace FileTree

variable {t t' : FileTree} {d : Path} {place : Location}

theorem Grows.opensAt (h : t.Grows t') (hopens : t.OpensAt d place) : t'.OpensAt d place :=
  have ⟨e, habove⟩ := hopens.above
  ⟨hopens.tidy, h.find_ok hopens.found, e, h.entryAt? habove⟩

end FileTree

namespace OutputName

variable {t : FileTree} {place : Location} {stem suffix : Text}

/-- With a file under a free name the other names are as free as before. -/
theorem free_put {k : Nat} (hfree : Free t place stem suffix k) (bytes : Bytes) (j : Nat) :
    let name := candidate stem suffix k
    Free (t.put (place ++ [FileName.bytes name]) (.file bytes)) place stem suffix j
      ↔ Free t place stem suffix j ∧ j ≠ k := by
  intro name
  have hadds := (FileTree.Adds.refl t).put bytes hfree.free
  have hentry := hadds.entryAt? (place ++ [FileName.bytes (candidate stem suffix j)])
  rw [List.nil_append, List.lookup_cons, List.lookup_nil] at hentry
  by_cases hj : j = k
  · -- The file itself is what is there now.
    refine ⟨fun h => ?_, fun h => absurd hj h.2⟩
    rw [hj, beq_self_eq_true, hfree.free] at hentry
    have hnone := h.free
    rw [hj, hentry] at hnone
    cases hnone
  · have hother : (place ++ [FileName.bytes (candidate stem suffix j)]
        == place ++ [FileName.bytes (candidate stem suffix k)]) = false := by
      rw [beq_eq_false_iff_ne]
      intro hsame
      exact hj (bytes_candidate_injective stem suffix
        (List.singleton_injective (List.append_cancel_left hsame)))
    rw [hother, Option.map_none, Option.or_none] at hentry
    refine ⟨fun h => ⟨⟨h.isName, hentry ▸ h.free⟩, hj⟩, fun h => ⟨h.1.isName, ?_⟩⟩
    rw [hentry]
    exact h.1.free

/-- When the first free name has been taken, those that are free are counted from the next one. -/
theorem nth_put (t : FileTree) (place : Location) (hslash : CodePoint.ofChar '/' ∉ stem ++ suffix)
    (hstorable : (stem ++ suffix).Storable) (bytes : Bytes) (i : Nat) :
    let name := candidate stem suffix (Nat.nth (Free t place stem suffix) 0)
    Nat.nth (Free (t.put (place ++ [FileName.bytes name]) (.file bytes)) place stem suffix) i
      = Nat.nth (Free t place stem suffix) (i + 1) := by
  intro name
  have hinfinite := free_infinite t place hslash hstorable
  set p := Free t place stem suffix with hp
  set q := Free (t.put (place ++ [FileName.bytes name]) (.file bytes)) place stem suffix with hq
  have hput : ∀ k, q k ↔ p k ∧ k ≠ Nat.nth p 0 :=
    free_put (Nat.nth_mem_of_infinite hinfinite 0) bytes
  -- The later free numbers are in order and are all of those that are left.
  have hmono : StrictMono fun i => Nat.nth p (i + 1) :=
    fun i j hij => (Nat.nth_lt_nth hinfinite).mpr (Nat.succ_lt_succ hij)
  have hall : ∀ i, q (Nat.nth p (i + 1)) := by
    intro i
    refine (hput _).mpr ⟨Nat.nth_mem_of_infinite hinfinite _, fun hsame => ?_⟩
    exact absurd (Nat.nth_injective hinfinite hsame) (Nat.succ_ne_zero i)
  have honto : ∀ k, q k → k ∈ Set.range fun i => Nat.nth p (i + 1) := by
    intro k hk
    obtain ⟨hfree, hne⟩ := (hput k).mp hk
    obtain ⟨_ | i, rfl⟩ : k ∈ Set.range (Nat.nth p) := by
      rw [Nat.range_nth_of_infinite hinfinite]
      exact hfree
    · exact absurd rfl hne
    · exact ⟨i, rfl⟩
  have hcount := Nat.nth_comp_of_strictMono (n := i) hmono honto ?_
  · rw [← hcount]
    simp only [hall, Nat.nth_true]
  · intro hfinite
    exact absurd hfinite (free_infinite _ place hslash hstorable)

end OutputName

namespace Saving

open OutputName

variable {t : FileTree} {d : Path} {place : Location} {stem suffix : Text} {r : Rendering}

/-- What is written of an output: nothing, if it cannot be encoded. -/
def written (r : Rendering) : Bytes :=
  match Utf8.encode r.content with
  | .ok bytes => bytes
  | .error _ => []

/-- What is told of an output that is saved under a name. -/
def outcome (d : Path) (place : Location) (r : Rendering) (name : Text) :
    Except InputFault (Path × Location) :=
  match Utf8.encode r.content with
  | .ok _ => .ok (d.join name, place ++ [FileName.bytes name])
  | .error run => .error (.unencodable run)

/-- Saves outputs one after the other, each in the tree that the one before it has left. -/
def saveEach (disk : Disk) (d : Path) (stem : Text) (t : FileTree) :
    List Rendering → FileTree × List (Except InputFault (Path × Location))
  | [] => (t, [])
  | r :: rest =>
    let saved := save disk t d stem r
    let others := saveEach disk d stem saved.1 rest
    (others.1, saved.2 :: others.2)

/-- **An output goes under the first free name.** -/
theorem save_free (h : t.OpensAt d place) (hslash : CodePoint.ofChar '/' ∉ stem ++ r.suffix)
    (hstorable : (stem ++ r.suffix).Storable)
    (hallows : ∀ j ≤ Nat.nth (Free t place stem r.suffix) 0,
      d.Allows (candidate stem r.suffix j)) :
    let name := candidate stem r.suffix (Nat.nth (Free t place stem r.suffix) 0)
    save .sound t d stem r
      = (t.put (place ++ [FileName.bytes name]) (.file (written r)), outcome d place r name) := by
  intro name
  have hvacant : t.Vacant place name :=
    Nat.nth_mem_of_infinite (free_infinite t place hslash hstorable) 0
  have hfits := FileTree.fits_of_allows hvacant.isName (hallows _ (Nat.le_refl _))
  have hplace : t.placeFor (d.join name).text = .ok (place ++ [FileName.bytes name]) := by
    rw [Path.join_name d hvacant.isName]
    exact h.leadsTo.placeFor_below hvacant.isName hfits hvacant.free
  have hsearch : firstFree t d stem r.suffix = .ok (d.join name) :=
    (finds_nth h hslash hstorable hallows).first
  rw [save, hsearch]
  simp only [hplace, Disk.sound, written, outcome]
  rcases Utf8.encode r.content with run | bytes <;> rfl

theorem saveEach_free {rs : List Rendering} (h : t.OpensAt d place)
    (hslash : CodePoint.ofChar '/' ∉ stem ++ suffix)
    (hstorable : (stem ++ suffix).Storable) (hsuffix : ∀ r ∈ rs, r.suffix = suffix)
    (hallows : ∀ i < rs.length, ∀ j ≤ Nat.nth (Free t place stem suffix) i,
      d.Allows (candidate stem suffix j)) :
    let name := fun i => candidate stem suffix (Nat.nth (Free t place stem suffix) i)
    t.Adds (rs.mapIdx fun i r => (place ++ [FileName.bytes (name i)], written r))
        (saveEach .sound d stem t rs).1 ∧
      (saveEach .sound d stem t rs).2 = rs.mapIdx fun i r => outcome d place r (name i) := by
  -- By induction on the outputs: the first is saved, and the tree has one free name less.
  induction rs generalizing t with
  | nil => exact ⟨.refl t, rfl⟩
  | cons r rest ih =>
    intro name
    obtain ⟨hr, hrest⟩ := List.forall_mem_cons.mp hsuffix
    have hfirst : save .sound t d stem r
        = (t.put (place ++ [FileName.bytes (name 0)]) (.file (written r)),
          outcome d place r (name 0)) := by
      subst hr
      exact save_free h hslash hstorable (hallows 0 (Nat.succ_pos _))
    have hfree := (Nat.nth_mem_of_infinite (free_infinite t place hslash hstorable) 0).free
    have hadds := (FileTree.Adds.refl t).put (written r) hfree
    have hnext := nth_put t place hslash hstorable (written r)
    obtain ⟨hothers, hresults⟩ := ih (hadds.grows.opensAt h) hrest (by
      intro i hi j hj
      rw [hnext] at hj
      exact hallows (i + 1) (Nat.succ_lt_succ hi) j hj)
    simp only [hnext] at hothers hresults
    rw [saveEach, hfirst, List.mapIdx_cons, List.mapIdx_cons]
    exact ⟨hadds.trans hothers, congrArg (List.cons _) hresults⟩

/-- A name that the system cannot be given is what the search gives, and no output goes under it. -/
theorem saveEach_refused (h : t.OpensAt d place) (hslash : CodePoint.ofChar '/' ∉ stem ++ suffix)
    (hstorable : ¬ (stem ++ suffix).Storable) :
    ∃ fault, FileTree.validate (d.join (candidate stem suffix 0)).text = .error fault ∧
      firstFree t d stem suffix = .ok (d.join (candidate stem suffix 0)) ∧
      ∀ rs : List Rendering, (∀ r ∈ rs, r.suffix = suffix) →
        saveEach .sound d stem t rs = (t, rs.map fun _ => .error (.unusable fault)) := by
  have hkept : Path.Kept (candidate stem suffix 0) := by
    rw [candidate_zero]
    refine ⟨fun hnil => hstorable (hnil ▸ nofun), fun hdot => hstorable ?_, hslash⟩
    rw [hdot]
    decide
  obtain ⟨fault, hfault, hfree, hplace⟩ := h.refuses hkept (mt storable_candidate.mp hstorable)
  have hsearch : firstFree t d stem suffix = .ok (d.join (candidate stem suffix 0)) :=
    firstFreeFrom_least (Nat.succ_pos _) nofun hfree
  refine ⟨fault, hfault, hsearch, fun rs hsuffix => ?_⟩
  induction rs with
  | nil => rfl
  | cons r rest ih =>
    obtain ⟨hr, hrest⟩ := List.forall_mem_cons.mp hsuffix
    have hsave : save .sound t d stem r = (t, .error (.unusable fault)) := by
      rw [save, hr, hsearch]
      simp only [hplace]
    rw [saveEach, hsave]
    simp only [ih hrest, List.map_cons]

/-- **Outputs under one stem and one suffix go under the first free names, in their order**: the
first name that is not there is what the search gives, whatever its fuel, and so it is again for
every output that is saved after it.  What has been in the tree before stays as it is.  This is so
as long as the system can be given the names, and no longer: else the search gives the first name,
nothing goes under it, and the tree stays as it is. -/
theorem saveEach_numbered (h : t.OpensAt d place)
    (hslash : CodePoint.ofChar '/' ∉ stem ++ suffix) :
    let name := candidate stem suffix
    let first := Nat.nth (Free t place stem suffix)
    Sequence stem suffix name ∧
    ((stem ++ suffix).Storable →
      (∀ k, d.Allows (name k) →
        (t.holds (d.join (name k)).text = .ok false ↔ Free t place stem suffix k) ∧
        (t.holds (d.join (name k)).text = .ok true ↔ ¬ Free t place stem suffix k)) ∧
      (StrictMono first ∧ ∀ k, Free t place stem suffix k ↔ ∃ i, first i = k) ∧
      ((∀ j ≤ first 0, d.Allows (name j)) → Finds t d stem suffix (first 0)) ∧
      ∀ rs : List Rendering, (∀ r ∈ rs, r.suffix = suffix) →
        (∀ i < rs.length, ∀ j ≤ first i, d.Allows (name j)) →
        t.Adds (rs.mapIdx fun i r => (place ++ [FileName.bytes (name (first i))], written r))
            (saveEach .sound d stem t rs).1 ∧
          (saveEach .sound d stem t rs).2
            = rs.mapIdx (fun i r => outcome d place r (name (first i))) ∧
          Function.Injective fun i => d.join (name (first i))) ∧
    (¬ (stem ++ suffix).Storable →
      ∃ fault, FileTree.validate (d.join (name 0)).text = .error fault ∧
        firstFree t d stem suffix = .ok (d.join (name 0)) ∧
        ∀ rs : List Rendering, (∀ r ∈ rs, r.suffix = suffix) →
          saveEach .sound d stem t rs = (t, rs.map fun _ => .error (.unusable fault))) := by
  intro name first
  refine ⟨sequence_candidate stem suffix, fun hstorable => ?_, saveEach_refused h hslash⟩
  have hinfinite := free_infinite t place hslash hstorable
  refine ⟨fun k => holds_candidate h hslash hstorable,
    ⟨Nat.nth_strictMono hinfinite, fun k => ?_⟩, finds_nth h hslash hstorable,
    fun rs hsuffix hallows => ?_⟩
  · rw [← Set.mem_range, Nat.range_nth_of_infinite hinfinite]
    rfl
  · obtain ⟨hadds, hresults⟩ := saveEach_free h hslash hstorable hsuffix hallows
    refine ⟨hadds, hresults, fun i j hij => ?_⟩
    have hjoin : ∀ i, d.join (name (first i)) = d.below (name (first i)) :=
      fun i => Path.join_name d (Nat.nth_mem_of_infinite hinfinite i).isName
    have hpaths : d.below (name (first i)) = d.below (name (first j)) := by
      rw [← hjoin, ← hjoin]
      exact hij
    have hlast := List.append_cancel_left (congrArg Path.names hpaths)
    exact Nat.nth_injective hinfinite (bytes_candidate_injective stem suffix
      (congrArg FileName.bytes (List.singleton_injective hlast)))

/-- A directory in which the first of the numbered names is a directory, and the third a file. -/
def gapped : FileTree where
  here := ["w"]
  entries := [(.ofNames ["w"], .directory), (.ofNames ["w", "a.ll"], .file []),
    (.ofNames ["w", "a-2.ll"], .directory), (.ofNames ["w", "a-4.ll"], .file [])]

theorem candidate_gapped {k : Nat} (hk : k < 8) :
    candidate "a" ".ll" (k + 1) = "a-" ++ [CodePoint.digit (k + 2)] ++ ".ll" := by
  rw [candidate_succ, Text.ofNat, if_pos (by omega)]
  rfl

theorem nth_gapped :
    Nat.nth (Free gapped (.ofNames ["w"]) "a" ".ll") 0 = 2 ∧
      Nat.nth (Free gapped (.ofNames ["w"]) "a" ".ll") 1 = 4 ∧
      Nat.nth (Free gapped (.ofNames ["w"]) "a" ".ll") 2 = 5 := by
  set p := Free gapped (.ofNames ["w"]) "a" ".ll" with hp
  have htaken : ∀ k, gapped.entryAt? (.ofNames ["w", candidate "a" ".ll" k]) ≠ none → ¬ p k :=
    fun k h hfree => h hfree.free
  have h0 : ¬ p 0 := htaken 0 (by decide)
  have h1 : ¬ p 1 := htaken 1 (by rw [candidate_gapped (by omega)]; decide)
  have h3 : ¬ p 3 := htaken 3 (by rw [candidate_gapped (by omega)]; decide)
  have hfree : ∀ k, gapped.entryAt? (.ofNames ["w", candidate "a" ".ll" (k + 1)]) = none →
      p (k + 1) := fun k h => ⟨isName_candidate_succ (by decide) (by decide) k, h⟩
  have h2 : p 2 := hfree 1 (by rw [candidate_gapped (by omega)]; decide)
  have h4 : p 4 := hfree 3 (by rw [candidate_gapped (by omega)]; decide)
  have h5 : p 5 := hfree 4 (by rw [candidate_gapped (by omega)]; decide)
  classical
  refine ⟨?_, ?_, ?_⟩
  · simpa [Nat.count_succ, h0, h1] using Nat.nth_count h2
  · simpa [Nat.count_succ, h0, h1, h2, h3] using Nat.nth_count h4
  · simpa [Nat.count_succ, h0, h1, h2, h3, h4] using Nat.nth_count h5

/-- Three outputs go under the names with 3, 5 and 6 there. -/
theorem saveEach_numbered_gapped :
    let image := fun content : Text => (⟨".ll", content, ""⟩ : Rendering)
    let saved := saveEach .sound (Path.ofText ".") "a" gapped [image "x", image "y", image "z"]
    saved.2 = [.ok (Path.ofText "a-3.ll", .ofNames ["w", "a-3.ll"]),
        .ok (Path.ofText "a-5.ll", .ofNames ["w", "a-5.ll"]),
        .ok (Path.ofText "a-6.ll", .ofNames ["w", "a-6.ll"])] ∧
      gapped.Adds [(.ofNames ["w", "a-3.ll"], [0x78]), (.ofNames ["w", "a-5.ll"], [0x79]),
        (.ofNames ["w", "a-6.ll"], [0x7a])] saved.1 := by
  intro image saved
  have hopens : gapped.OpensAt (Path.ofText ".") (.ofNames ["w"]) :=
    ⟨Path.tidy_ofText _, by decide, ⟨.directory, by decide⟩⟩
  obtain ⟨hzero, hone, htwo⟩ := nth_gapped
  obtain ⟨-, hnumbered, -⟩ :=
    @saveEach_numbered gapped (Path.ofText ".") (.ofNames ["w"]) "a" ".ll" hopens (by decide)
  obtain ⟨-, -, -, hsaves⟩ := hnumbered (by decide)
  obtain ⟨hadds, hresults, -⟩ := hsaves [image "x", image "y", image "z"] (by decide) (by
    intro i hi j hj
    have hj : j ≤ 5 := by
      have hi : i < 3 := hi
      obtain rfl | rfl | rfl : i = 0 ∨ i = 1 ∨ i = 2 := by omega
      all_goals omega
    rcases j with _ | j
    · exact ⟨by decide, by decide⟩
    · rw [candidate_gapped (by omega)]
      rcases j with _ | _ | _ | _ | _ | j
      all_goals first | exact ⟨by decide, by decide⟩ | omega)
  refine ⟨hresults.trans ?_, ?_⟩
  · simp only [List.mapIdx_cons, List.mapIdx_nil, hzero, hone, htwo, Nat.zero_add]
    rw [candidate_gapped (by omega), candidate_gapped (by omega), candidate_gapped (by omega)]
    rfl
  · simp only [List.mapIdx_cons, List.mapIdx_nil, hzero, hone, htwo, Nat.zero_add] at hadds
    rw [candidate_gapped (by omega), candidate_gapped (by omega), candidate_gapped (by omega)]
      at hadds
    exact hadds

/-! ### Names under which nothing can be saved -/

/-- A working directory with a directory, and with one that may not be searched. -/
def guarded : FileTree where
  here := ["w"]
  entries := [(.ofNames ["w"], .directory), (.ofNames ["w", "d"], .directory),
    (.ofNames ["w", "s"], .sealed)]

/-- Names that go back and forth between a directory and the one it is in. -/
def turns : Nat → List Text
  | 0 => ["d"]
  | n + 1 => "d" :: ".." :: turns n

/-- A path of such names. -/
def winding (n : Nat) : Path := ⟨[], turns n⟩

theorem turns_ne_nil (n : Nat) : turns n ≠ [] := by cases n <;> nofun

theorem mem_turns {name : Text} {n : Nat} (h : name ∈ turns n) : name = "d" ∨ name = ".." := by
  induction n with
  | zero => exact .inl (List.mem_singleton.mp h)
  | succ n ih =>
    rcases List.mem_cons.mp h with rfl | h
    · exact .inl rfl
    rcases List.mem_cons.mp h with rfl | h
    · exact .inr rfl
    · exact ih h

theorem tidy_winding (n : Nat) : (winding n).Tidy := by
  refine ⟨.inl rfl, fun name hname => ?_⟩
  rcases mem_turns hname with rfl | rfl <;> exact ⟨by decide, by decide, by decide⟩

/-- One turn back and forth takes five bytes. -/
theorem size_turn {names : List Text} (hne : names ≠ []) :
    FileName.size (Path.text ⟨[], "d" :: ".." :: names⟩)
      = 5 + FileName.size (Path.text ⟨[], names⟩) := by
  have htext : Path.text ⟨[], "d" :: ".." :: names⟩ = "d/../" ++ Path.text ⟨[], names⟩ := by
    obtain ⟨name, rest, rfl⟩ := List.exists_cons_of_ne_nil hne
    rfl
  have hturn : FileName.size "d/../" = 5 := by decide
  rw [htext, FileName.size_append, hturn]

theorem size_winding (n : Nat) : FileName.size (winding n).text = 5 * n + 1 := by
  induction n with
  | zero => rfl
  | succ n ih =>
    have hsize := size_turn (turns_ne_nil n)
    rw [winding] at ih
    rw [winding, turns, hsize, ih]
    omega

theorem size_winding_below (n : Nat) :
    FileName.size ((winding n).below "p.ll").text = 5 * n + 6 := by
  induction n with
  | zero => rfl
  | succ n ih =>
    have hsize := size_turn (List.concat_ne_nil ("p.ll" : Text) (turns n))
    rw [Path.below, winding] at ih
    rw [Path.below, winding, turns, List.cons_append, List.cons_append, hsize, ih]
    omega

theorem leadsTo_winding (n : Nat) : guarded.LeadsTo (winding n) (.ofNames ["w", "d"]) := by
  refine ⟨tidy_winding n, fun name hname => ?_, ?_, by decide⟩
  · rcases mem_turns hname with rfl | rfl <;> decide
  · show guarded.follow (.ofNames ["w"]) (turns n) = .ok (.ofNames ["w", "d"])
    induction n with
    | zero => decide
    | succ n ih => exact ih

/-- The system finds the directory under such a path as long as that is not too long. -/
theorem find_winding {n : Nat} (h : 5 * n + 1 ≤ FileTree.pathLimit) :
    guarded.find (winding n).text = .ok (.ofNames ["w", "d"], .directory) := by
  have hleads := leadsTo_winding n
  have hne : (winding n).text ≠ [] := by
    intro hnil
    have hsize := size_winding n
    rw [hnil] at hsize
    cases hsize
  refine FileTree.find_eq_ok.mpr ⟨?_, hne, ?_, ?_, hleads.directory⟩
  · exact (Path.storable_text (tidy_winding n).storable_root).mpr hleads.storable
  · rw [Bool.not_eq_true, FileTree.exceeds_eq_false, size_winding]
    exact h
  · rw [FileTree.start_tidy _ (tidy_winding n), (tidy_winding n).split_text (turns_ne_nil n)]
    exact hleads.follow

/-- The path below it by a name can be too long where neither of the two is. -/
theorem firstFree_winding {n : Nat} (h : FileTree.pathLimit < 5 * n + 6) :
    ∃ path, firstFree guarded (winding n) "p" ".ll" = .error (.refused .nameTooLong path) := by
  have hname : IsName "p.ll" := by decide
  have hjoin : (winding n).join (candidate "p" ".ll" 0) = (winding n).below "p.ll" :=
    Path.join_name _ hname
  have hlong : ¬ (winding n).Fits "p.ll" := by
    intro hfits
    have hnear := FileTree.exceeds_eq_false.mp hfits.near
    rw [size_winding_below] at hnear
    omega
  refine ⟨((winding n).below "p.ll").text, ?_⟩
  rw [firstFree, firstFreeFrom, hjoin, FileTree.holds, FileTree.ask,
    (leadsTo_winding n).find_too_long hname hlong]
  rfl

/-- Half a pair in a stem keeps all outputs from being saved, though its name is free.  The search
gives nothing where the path that a name makes is too long, though no name is, and in a directory
that may not be searched. -/
theorem saveEach_unnumbered :
    (let stem : Text := [CodePoint.ofNat 0xD800]
      let image : Rendering := ⟨".ll", "x", ""⟩
      guarded.OpensAt (Path.ofText ".") (.ofNames ["w"]) ∧
      CodePoint.ofChar '/' ∉ stem ++ ".ll" ∧ CodePoint.ofNat 0 ∉ stem ++ ".ll" ∧
      (∃ path, firstFree guarded (Path.ofText ".") stem ".ll" = .ok path ∧
        guarded.holds path.text = .ok false) ∧
      ∃ fault, saveEach .sound (Path.ofText ".") stem guarded [image, image]
        = (guarded, [.error fault, .error fault])) ∧
    (guarded.find (winding 818).text = .ok (.ofNames ["w", "d"], .directory) ∧
      FileTree.exceeds FileTree.nameLimit (candidate "p" ".ll" 0) = false ∧
      ∃ path, firstFree guarded (winding 818) "p" ".ll"
        = .error (.refused .nameTooLong path)) ∧
    guarded.isDirectory (Path.ofText "s").text = .ok true ∧
      ∃ path, firstFree guarded (Path.ofText "s") "p" ".ll" = .error (.refused .denied path) := by
  have hopens : guarded.OpensAt (Path.ofText ".") (.ofNames ["w"]) :=
    ⟨Path.tidy_ofText _, by decide, .directory, by decide⟩
  refine ⟨⟨hopens, by decide, by decide, ⟨_, rfl, by decide⟩, ?_⟩,
    ⟨find_winding (by decide), by decide, firstFree_winding (by decide)⟩, by decide, ⟨_, rfl⟩⟩
  obtain ⟨fault, -, -, hsaves⟩ := @saveEach_refused guarded (Path.ofText ".") (.ofNames ["w"])
    [CodePoint.ofNat 0xD800] ".ll" hopens (by decide) (by decide)
  exact ⟨_, hsaves _ (by decide)⟩

end Saving

end LiteralSplice
