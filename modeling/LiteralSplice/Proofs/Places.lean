/-
Absolute paths and the places they lead to.

* **`Text.Storable`**: a text that the system can be given as a path (`FileTree.validate_eq_ok`);
* **`IsName`**: a name that stands for itself on the way to a place;
* **`Path.Absolute`**: a path from the root made of such names, as `FileTree.resolve` gives them
  (`FileTree.resolve_absolute`);
* **`FileTree.resolve_eq_ok`**: just the paths that the system can be given are made absolute;
* **`FileTree.find_absolute`**: an absolute path can only lead to the place of its own names;
* **`FileTree.placeFor_free`**: a file written under a free path goes to the place of the path,
  where there was nothing.
-/
import LiteralSplice.FileTree.Basic
import LiteralSplice.Proofs.Encodings
import LiteralSplice.Proofs.Texts

namespace LiteralSplice

/-- A text that the system can be given as a path or a name: it has bytes, and no zero is among
them. -/
def Text.Storable (t : Text) : Prop :=
  ∀ c ∈ t, c ≠ CodePoint.ofNat 0 ∧ FileName.isByteless c = false

instance (t : Text) : Decidable t.Storable := List.decidableBAll _ t

/-- A name that stands for itself on the way to a place. -/
structure IsName (name : Text) : Prop where
  ne_nil : name ≠ []
  ne_dot : name ≠ "."
  ne_dots : name ≠ ".."
  no_slash : CodePoint.ofChar '/' ∉ name
  storable : name.Storable

instance (name : Text) : Decidable (IsName name) :=
  decidable_of_iff (name ≠ [] ∧ name ≠ "." ∧ name ≠ ".." ∧
      name.contains (CodePoint.ofChar '/') = false ∧ name.Storable) <| by
    rw [← Bool.not_eq_true, List.contains_iff_mem]
    exact ⟨fun h => ⟨h.1, h.2.1, h.2.2.1, h.2.2.2.1, h.2.2.2.2⟩,
      fun h => ⟨h.ne_nil, h.ne_dot, h.ne_dots, h.no_slash, h.storable⟩⟩

/-- A reason for which there is no answer to a question about a path. -/
def PathReason.Unanswered (reason : PathReason) : Prop := reason = .nameTooLong ∨ reason = .denied

namespace FileName

theorem bytes_append (s t : Text) : bytes (s ++ t) = bytes s ++ bytes t := List.flatMap_append

theorem size_append (s t : Text) : size (s ++ t) = size s + size t := by
  rw [size, bytes_append, List.length_append]
  rfl

/-- A code point that is no surrogate has the bytes in a name that it has anywhere. -/
theorem bytesOf_plain {c : CodePoint} (h : c.isSurrogate = false) :
    bytesOf c = Utf8.bytesOf c := by
  have hself : c.escapesByte = false := by
    rw [CodePoint.isSurrogate, Bool.and_eq_false_iff, decide_eq_false_iff_not,
      decide_eq_false_iff_not] at h
    rw [CodePoint.escapesByte, Bool.and_eq_false_iff, decide_eq_false_iff_not,
      decide_eq_false_iff_not]
    omega
  rw [bytesOf, hself, if_neg Bool.false_ne_true]

theorem encode_plain {t : Text} (h : t.Plain) : Utf8.encode t = .ok (bytes t) :=
  Utf8.encode_ok.mpr ⟨h, List.flatMap_congr fun c hc => bytesOf_plain (h c hc)⟩

/-- Names without surrogates that have the same bytes are the same. -/
theorem eq_of_bytes_eq {s t : Text} (hs : s.Plain) (ht : t.Plain) (h : bytes s = bytes t) :
    s = t := by
  have hdecode := Utf8.decode_encode (encode_plain hs)
  rw [h, Utf8.decode_encode (encode_plain ht)] at hdecode
  exact (Except.ok.inj hdecode).symm

end FileName

namespace Location

theorem ofNames_append (names more : List Text) :
    ofNames (names ++ more) = ofNames names ++ ofNames more := List.map_append

theorem ofNames_concat (names : List Text) (name : Text) :
    ofNames (names ++ [name]) = ofNames names ++ [FileName.bytes name] := ofNames_append _ _

end Location

theorem FileTree.exceeds_eq_false {limit : Nat} {t : Text} :
    exceeds limit t = false ↔ FileName.size t ≤ limit := by
  rw [exceeds, decide_eq_false_iff_not, Nat.not_lt]

namespace Text

theorem storable_append {s t : Text} : Storable (s ++ t) ↔ s.Storable ∧ t.Storable :=
  List.forall_mem_append

/-- Pieces are storable together with their join, where what is between them is. -/
theorem storable_join {sep : Text} (hsep : sep.Storable) {pieces : List Text} :
    Storable (join sep pieces) ↔ ∀ piece ∈ pieces, piece.Storable := by
  constructor
  · intro h piece hpiece c hc
    by_cases hmem : c ∈ sep
    · exact hsep c hmem
    · exact h c ((mem_join hmem).mpr ⟨piece, hpiece, hc⟩)
  · intro h c hc
    by_cases hmem : c ∈ sep
    · exact hsep c hmem
    · obtain ⟨piece, hpiece, hin⟩ := (mem_join hmem).mp hc
      exact h piece hpiece c hin

theorem not_mem_of_mem_split {sep : CodePoint} {t piece : Text} (h : piece ∈ split sep t) :
    sep ∉ piece := by
  induction t generalizing piece with
  | nil =>
    rw [split, List.mem_singleton] at h
    simp [h]
  | cons c r ih =>
    rw [split] at h
    by_cases hc : c = sep
    · rw [if_pos hc, List.mem_cons] at h
      rcases h with rfl | h
      · simp
      · exact ih h
    · rw [if_neg hc] at h
      rcases hs : split sep r with _ | ⟨first, others⟩
      · rw [hs] at h
        rw [List.mem_singleton.mp h, List.mem_singleton]
        exact fun he => hc he.symm
      · rw [hs] at h ih
        rcases List.mem_cons.mp h with rfl | h
        · rw [List.mem_cons, not_or]
          exact ⟨fun he => hc he.symm, ih List.mem_cons_self⟩
        · exact ih (List.mem_cons_of_mem _ h)

end Text

namespace Path

/-- A path from the root, made of names that stand for themselves. -/
structure Absolute (p : Path) : Prop where
  root : p.root = "/"
  names : ∀ n ∈ p.names, IsName n

variable {p : Path}

theorem Absolute.parent (h : p.Absolute) : p.parent.Absolute :=
  ⟨h.root, fun n hn => h.names n (List.dropLast_subset _ hn)⟩

theorem Absolute.snoc (h : p.Absolute) {c : Text} (hc : IsName c) :
    Absolute { p with names := p.names ++ [c] } := by
  refine ⟨h.root, fun n hn => ?_⟩
  rcases List.mem_append.mp hn with hn | hn
  · exact h.names n hn
  · rw [List.mem_singleton.mp hn]
    exact hc

theorem Absolute.text_eq (h : p.Absolute) :
    p.text = CodePoint.ofChar '/' :: Text.join "/" p.names := by
  rw [text, h.root]
  simp [Text.ofString]

/-- A name that is kept when a path is read; two dots are kept, too. -/
def Kept (name : Text) : Prop := name ≠ [] ∧ name ≠ "." ∧ CodePoint.ofChar '/' ∉ name

theorem kept_of_isName {name : Text} (h : IsName name) : Kept name :=
  ⟨h.ne_nil, h.ne_dot, h.no_slash⟩

/-- A path below another by one name. -/
theorem join_kept (d : Path) {c : Text} (hc : Kept c) :
    d.join c = { d with names := d.names ++ [c] } := by
  obtain ⟨hnil, hdot, hslash⟩ := hc
  have hroot : (ofText c).root = [] := by
    rcases c with _ | ⟨x, r⟩
    · rfl
    · have hx : x ≠ CodePoint.ofChar '/' := fun he => hslash (he ▸ List.mem_cons_self)
      simp [ofText, hx]
  have hnames : (ofText c).names = [c] := by
    rw [ofText]
    simp only [Text.split_of_not_mem hslash]
    rw [List.filter_cons_of_pos]
    · rfl
    · exact decide_eq_true ⟨hnil, hdot⟩
  rw [join, hroot, hnames]
  rfl

theorem join_name (d : Path) {c : Text} (hc : IsName c) :
    d.join c = { d with names := d.names ++ [c] } :=
  join_kept d (kept_of_isName hc)

/-- The names of a path as it is written are not empty, no single dots, and have no slash. -/
theorem mem_ofText_names {t n : Text} (h : n ∈ (ofText t).names) :
    n ≠ [] ∧ n ≠ "." ∧ CodePoint.ofChar '/' ∉ n := by
  rw [ofText] at h
  obtain ⟨hmem, hkeep⟩ := List.mem_filter.mp h
  have hkeep := of_decide_eq_true hkeep
  exact ⟨hkeep.1, hkeep.2, Text.not_mem_of_mem_split hmem⟩

/-- The names of a path are storable together with the path as it is written. -/
theorem storable_text (hroot : p.root.Storable) :
    p.text.Storable ↔ ∀ n ∈ p.names, n.Storable := by
  rw [text]
  split
  · rename_i hempty
    rw [hempty.2]
    exact ⟨fun _ n hn => absurd hn List.not_mem_nil, fun _ => by decide⟩
  · rw [Text.storable_append, Text.storable_join (by decide), and_iff_right hroot]

theorem Absolute.storable_text (h : p.Absolute) : p.text.Storable := by
  rw [Path.storable_text (h.root ▸ by decide)]
  exact fun n hn => (h.names n hn).storable

/-- Reading a path and writing it again loses nothing but dots and slashes. -/
theorem mem_text_ofText {c : CodePoint} (hslash : c ≠ CodePoint.ofChar '/')
    (hdot : c ≠ CodePoint.ofChar '.') {t : Text} : c ∈ (ofText t).text ↔ c ∈ t := by
  have hroot : c ∉ (ofText t).root := by
    rw [ofText]
    simp only
    split
    · exact List.not_mem_nil
    · split
      · exact fun hc => by
          rcases List.mem_cons.mp hc with hc | hc
          · exact hslash hc
          · exact hslash (List.mem_singleton.mp hc)
      · exact fun hc => hslash (List.mem_singleton.mp hc)
  have hnames : (∃ n ∈ (ofText t).names, c ∈ n) ↔ c ∈ t := by
    rw [← Text.mem_split hslash]
    constructor
    · rintro ⟨n, hn, hc⟩
      exact ⟨n, (List.mem_filter.mp hn).1, hc⟩
    · -- A piece with the character is neither empty nor a single dot.
      rintro ⟨n, hn, hc⟩
      refine ⟨n, List.mem_filter.mpr ⟨hn, decide_eq_true ⟨List.ne_nil_of_mem hc, ?_⟩⟩, hc⟩
      rintro rfl
      exact hdot (List.mem_singleton.mp hc)
  have hsep : c ∉ ("/" : Text) := fun hc => hslash (List.mem_singleton.mp hc)
  rw [text, ← hnames]
  split
  · rename_i hempty
    have hc : c ∉ ("." : Text) := fun hc => hdot (List.mem_singleton.mp hc)
    simp [hempty.2, hc]
  · rw [List.mem_append, or_iff_right hroot, Text.mem_join hsep]

theorem storable_text_ofText {t : Text} : (ofText t).text.Storable ↔ t.Storable := by
  -- Dots and slashes are storable, so it does not matter that some are lost.
  have hsigns : ∀ c, (c = CodePoint.ofChar '/' ∨ c = CodePoint.ofChar '.') →
      c ≠ CodePoint.ofNat 0 ∧ FileName.isByteless c = false := by
    rintro c (rfl | rfl) <;> decide
  have hsame : ∀ c, ¬ (c = CodePoint.ofChar '/' ∨ c = CodePoint.ofChar '.') →
      (c ∈ (ofText t).text ↔ c ∈ t) := fun c hc =>
    mem_text_ofText (fun he => hc (Or.inl he)) (fun he => hc (Or.inr he))
  constructor
  · intro h c hc
    by_cases hsign : c = CodePoint.ofChar '/' ∨ c = CodePoint.ofChar '.'
    · exact hsigns c hsign
    · exact h c ((hsame c hsign).mpr hc)
  · intro h c hc
    by_cases hsign : c = CodePoint.ofChar '/' ∨ c = CodePoint.ofChar '.'
    · exact hsigns c hsign
    · exact h c ((hsame c hsign).mp hc)

theorem storable_root_ofText (t : Text) : (ofText t).root.Storable := by
  rw [ofText]
  simp only
  split_ifs <;> decide

theorem storable_names_ofText {t : Text} :
    (∀ n ∈ (ofText t).names, n.Storable) ↔ t.Storable := by
  rw [← storable_text (storable_root_ofText t), storable_text_ofText]

end Path

namespace FileTree

variable {t : FileTree} {p : Path} {place : Location}

/-! ### What the system can be given -/

theorem bytelessRun?_eq_none {path : Text} :
    FileName.bytelessRun? path = none ↔ ∀ c ∈ path, FileName.isByteless c = false :=
  Utf8.firstRun?_eq_none

theorem validate_eq_ok {path : Text} : validate path = .ok () ↔ path.Storable := by
  rw [validate]
  split
  · rename_i run hrun
    refine ⟨nofun, fun h => ?_⟩
    rw [bytelessRun?_eq_none.mpr fun c hc => (h c hc).2] at hrun
    cases hrun
  · rename_i hnone
    have hbytes := bytelessRun?_eq_none.mp hnone
    split
    · rename_i hzero
      exact ⟨nofun, fun h => absurd rfl (h _ hzero).1⟩
    · rename_i hzero
      refine ⟨fun _ c hc => ⟨?_, hbytes c hc⟩, fun _ => rfl⟩
      rintro rfl
      exact hzero hc

/-- What the system cannot be given is not refused by it. -/
theorem validate_ne_refused {path s : Text} {reason : PathReason} :
    validate path ≠ .error (.refused reason s) := by
  rw [validate]
  split
  · exact nofun
  · split <;> exact nofun

theorem validate_error {path : Text} (h : ¬ path.Storable) :
    ∃ fault, validate path = .error fault ∧ ∀ reason s, fault ≠ .refused reason s := by
  rcases hv : validate path with fault | _
  · refine ⟨fault, rfl, fun reason s he => ?_⟩
    rw [he] at hv
    exact validate_ne_refused hv
  · exact absurd (validate_eq_ok.mp hv) h

theorem storable_above {root : Text} {names : List Text} (h : ∀ n ∈ names, n.Storable) :
    ∀ n ∈ above root names, n.Storable := by
  intro n hn
  rw [above] at hn
  split_ifs at hn with hdots hroot
  · rcases List.mem_append.mp hn with hn | hn
    · exact h n hn
    · rw [List.mem_singleton.mp hn]
      decide
  · exact h n hn
  · exact h n (List.dropLast_subset _ hn)

/-- The paths on the way can all be put to the system exactly if all names can. -/
theorem validateAlong_eq_ok {root : Text} (hroot : root.Storable) {before names : List Text}
    (hbefore : ∀ n ∈ before, n.Storable) :
    validateAlong root before names = .ok () ↔ ∀ n ∈ names, n.Storable := by
  induction names generalizing before with
  | nil => exact ⟨fun _ n hn => absurd hn List.not_mem_nil, fun _ => rfl⟩
  | cons name rest ih =>
    rw [List.forall_mem_cons, validateAlong]
    by_cases hdots : name = ".."
    · rw [if_pos hdots, ih (storable_above hbefore), hdots, and_iff_right (by decide)]
    rw [if_neg hdots]
    show (validate (Path.text ⟨root, before ++ [name]⟩) >>= fun _ =>
      validateAlong root (before ++ [name]) rest) = .ok () ↔ _
    have hname : (Path.text ⟨root, before ++ [name]⟩).Storable ↔ name.Storable := by
      rw [Path.storable_text hroot, List.forall_mem_append, and_iff_right hbefore]
      simp only [List.mem_singleton, forall_eq]
    rcases hv : validate (Path.text ⟨root, before ++ [name]⟩) with fault | _
    · refine ⟨nofun, fun h => ?_⟩
      rw [validate_eq_ok.mpr (hname.mpr h.1)] at hv
      cases hv
    · have hstored := hname.mp (validate_eq_ok.mp hv)
      rw [and_iff_right hstored]
      refine ih fun n hn => ?_
      rcases List.mem_append.mp hn with hn | hn
      · exact hbefore n hn
      · rw [List.mem_singleton.mp hn]
        exact hstored

/-- The paths that are made absolute are those that can be put to the system. -/
theorem resolve_eq_ok {q : Path} : t.resolve p = .ok q ↔ (∀ n ∈ p.names, n.Storable) ∧
    q = ⟨"/", descend (if p.root = [] then t.here else []) p.names⟩ := by
  have halong : validateAlong (if p.root = [] then [] else "/") [] p.names = .ok () ↔
      ∀ n ∈ p.names, n.Storable := by
    refine validateAlong_eq_ok ?_ fun n hn => absurd hn List.not_mem_nil
    split <;> decide
  rw [← halong, resolve]
  rcases validateAlong (if p.root = [] then [] else "/") [] p.names with fault | _
  · exact ⟨nofun, fun h => absurd h.1 nofun⟩
  · refine ⟨fun h => ?_, fun h => ?_⟩
    · cases h
      exact ⟨rfl, rfl⟩
    · rw [h.2]
      rfl

theorem descend_names {before names : List Text} (hbefore : ∀ n ∈ before, IsName n)
    (hnames : ∀ n ∈ names, n ≠ [] ∧ n ≠ "." ∧ CodePoint.ofChar '/' ∉ n)
    (hstorable : ∀ n ∈ names, n.Storable) :
    ∀ n ∈ descend before names, IsName n := by
  induction names generalizing before with
  | nil => exact hbefore
  | cons name rest ih =>
    rw [descend, List.foldl_cons, ← descend]
    refine ih (fun n hn => ?_) (fun n hn => hnames n (List.mem_cons_of_mem _ hn))
      fun n hn => hstorable n (List.mem_cons_of_mem _ hn)
    -- Two dots take the last name away, and any other name is put behind it.
    by_cases hdots : name = ".."
    · rw [if_pos hdots] at hn
      exact hbefore n (List.dropLast_subset _ hn)
    · rw [if_neg hdots] at hn
      rcases List.mem_append.mp hn with hn | hn
      · exact hbefore n hn
      · obtain ⟨h1, h2, h3⟩ := hnames name List.mem_cons_self
        rw [List.mem_singleton.mp hn]
        exact ⟨h1, h2, hdots, h3, hstorable name List.mem_cons_self⟩

/-- What a path is made into is absolute. -/
theorem resolve_absolute {name : Text} (hhere : ∀ n ∈ t.here, IsName n)
    (h : t.resolve (Path.ofText name) = .ok p) : p.Absolute := by
  obtain ⟨hstorable, rfl⟩ := resolve_eq_ok.mp h
  refine ⟨rfl, descend_names ?_ (fun n hn => Path.mem_ofText_names hn) hstorable⟩
  split
  · exact hhere
  · exact fun n hn => absurd hn List.not_mem_nil

/-! ### Following a path -/

@[simp] theorem entryAt?_nil (t : FileTree) : t.entryAt? [] = some .directory := rfl

theorem entryAt?_of_ne_nil (h : place ≠ []) : t.entryAt? place = t.entries.lookup place := by
  rw [entryAt?, if_neg h]

theorem start_text (t : FileTree) (hp : p.Absolute) : t.start p.text = [] := by
  rw [start, hp.text_eq]
  rfl

/-- The pieces of an absolute path, an empty one ahead of the names. -/
theorem split_text (hp : p.Absolute) (hne : p.names ≠ []) :
    p.text.split '/' = [] :: p.names := by
  have hjoin : Text.split (CodePoint.ofChar '/') (Text.join "/" p.names) = p.names :=
    Text.split_join (fun n hn => (hp.names n hn).no_slash) hne
  rw [hp.text_eq, Text.split, if_pos rfl, hjoin]

theorem step_nil (t : FileTree) : t.step [] [] = .ok [] := rfl

theorem follow_text (t : FileTree) (hp : p.Absolute) :
    t.follow (t.start p.text) (p.text.split '/') = t.follow [] p.names := by
  rw [start_text t hp]
  by_cases hne : p.names = []
  · have htext : p.text = [CodePoint.ofChar '/'] := by
      rw [hp.text_eq, hne]
      rfl
    rw [htext, hne]
    simp [Text.split, follow, step, bind, Except.bind]
  · -- The piece ahead of the first slash is empty and leads from the root to the root.
    rw [split_text hp hne, follow, List.foldlM_cons, step_nil]
    rfl

theorem step_ok {name : Text} {q : Location} (hn : IsName name)
    (h : t.step place name = .ok q) :
    q = place ++ [FileName.bytes name] ∧ (t.entryAt? q).isSome := by
  rw [step, if_neg hn.ne_nil] at h
  split at h
  · cases h
  split at h
  · cases h
  · rw [if_neg (by simp [hn.ne_nil, hn.ne_dot]), if_neg hn.ne_dots] at h
    split at h
    · cases h
    · split at h
      · cases h
      · rename_i hsome
        cases h
        exact ⟨rfl, by simpa [Option.isSome_iff_ne_none] using hsome⟩

theorem step_missing {name : Text} (hn : IsName name)
    (h : t.step place name = .error .missing) :
    t.entryAt? (place ++ [FileName.bytes name]) = none := by
  rw [step, if_neg hn.ne_nil] at h
  split at h
  · cases h
  split at h
  · cases h
  · rw [if_neg (by simp [hn.ne_nil, hn.ne_dot]), if_neg hn.ne_dots] at h
    split at h
    · cases h
    · split at h
      · rename_i hnone
        simpa using hnone
      · cases h

/-- Names that stand for themselves lead to the place below by these names. -/
theorem follow_ok {names : List Text} {q : Location} (hn : ∀ n ∈ names, IsName n)
    (h : t.follow place names = .ok q) : q = place ++ .ofNames names := by
  induction names generalizing place with
  | nil =>
    cases h
    exact (List.append_nil _).symm
  | cons name rest ih =>
    rw [follow, List.foldlM_cons] at h
    rcases hs : t.step place name with reason | next
    · rw [hs] at h
      cases h
    · rw [hs] at h
      obtain ⟨rfl, -⟩ := step_ok (hn name List.mem_cons_self) hs
      rw [ih (fun n hm => hn n (List.mem_cons_of_mem _ hm)) h, List.append_assoc]
      rfl

theorem follow_snoc (t : FileTree) (place : Location) (names : List Text) (name : Text) :
    t.follow place (names ++ [name])
      = t.follow place names >>= fun q => t.step q name := by
  rw [follow, List.foldlM_append]
  congr 1
  funext q
  rw [List.foldlM_cons]
  rcases t.step q name with reason | next <;> rfl

/-! ### What an absolute path leads to -/

/-- The system looks for a path that it can be given. -/
theorem find_storable {path : Text} (h : path.Storable) : t.find path
    = if path = [] then .error (.refused .missing path)
      else if exceeds pathLimit path then .error (.refused .nameTooLong path)
      else match t.follow (t.start path) (path.split '/') with
        | .error reason => .error (.refused reason path)
        | .ok place =>
          match t.entryAt? place with
          | some entry => .ok (place, entry)
          | none => .error (.refused .missing path) := by
  rw [find, validate_eq_ok.mpr h]
  rfl

theorem find_not_storable {path : Text} (h : ¬ path.Storable) :
    ∃ fault, t.find path = .error fault ∧ ∀ reason s, fault ≠ .refused reason s := by
  obtain ⟨fault, hfault, hnot⟩ := validate_error h
  refine ⟨fault, ?_, hnot⟩
  rw [find, hfault]
  rfl

/-- A path leads somewhere exactly if it can be looked up, can be followed to a place, and there is
an entry at that place. -/
theorem find_eq_ok {path : Text} {q : Location} {e : Entry} : t.find path = .ok (q, e) ↔
    path.Storable ∧ path ≠ [] ∧ ¬ exceeds pathLimit path = true ∧
      t.follow (t.start path) (path.split '/') = .ok q ∧ t.entryAt? q = some e := by
  by_cases hstorable : path.Storable
  swap
  · obtain ⟨fault, hfault, -⟩ := find_not_storable (t := t) hstorable
    rw [hfault]
    exact ⟨nofun, fun h => absurd h.1 hstorable⟩
  rw [find_storable hstorable]
  constructor
  · intro h
    split at h
    · cases h
    split at h
    · cases h
    rename_i hnil hshort
    rcases hfollow : t.follow (t.start path) (path.split '/') with reason | place
    · rw [hfollow] at h
      cases h
    · rw [hfollow] at h
      rcases he : t.entryAt? place with _ | entry
      · simp only [he] at h
        cases h
      · simp only [he] at h
        cases h
        exact ⟨hstorable, hnil, hshort, rfl, he⟩
  · rintro ⟨-, hnil, hshort, hfollow, he⟩
    rw [if_neg hnil, if_neg hshort, hfollow]
    simp only [he]

/-- A path that the system can be given is refused under its own name. -/
theorem find_error {path : Text} {fault : PathFault} (hstorable : path.Storable)
    (h : t.find path = .error fault) : ∃ reason, fault = .refused reason path := by
  rw [find_storable hstorable] at h
  split at h
  · cases h
    exact ⟨_, rfl⟩
  split at h
  · cases h
    exact ⟨_, rfl⟩
  split at h
  · cases h
    exact ⟨_, rfl⟩
  split at h
  · cases h
  · cases h
    exact ⟨_, rfl⟩

theorem find_refused {path s : Text} {reason : PathReason}
    (h : t.find path = .error (.refused reason s)) : s = path ∧ path.Storable := by
  by_cases hstorable : path.Storable
  · obtain ⟨reason', hfault⟩ := find_error hstorable h
    cases hfault
    exact ⟨rfl, hstorable⟩
  · obtain ⟨fault, hfault, hnot⟩ := find_not_storable (t := t) hstorable
    rw [hfault] at h
    cases h
    exact absurd rfl (hnot reason s)

theorem read_not_storable {path : Text} (h : ¬ path.Storable) :
    ∃ fault, t.read path = .error fault ∧ ∀ reason s, fault ≠ .refused reason s := by
  obtain ⟨fault, hfault, hnot⟩ := find_not_storable (t := t) h
  refine ⟨fault, ?_, hnot⟩
  rw [read, hfault]
  rfl

/-- A file that the system can be asked for is refused by it or read. -/
theorem read_error {path : Text} {fault : PathFault} (hstorable : path.Storable)
    (h : t.read path = .error fault) : ∃ reason s, fault = .refused reason s := by
  rw [read] at h
  rcases hfind : t.find path with cause | ⟨place, content | _ | _⟩ <;> rw [hfind] at h
  · obtain ⟨reason, rfl⟩ := find_error hstorable hfind
    cases h
    exact ⟨reason, path, rfl⟩
  · cases h
  · cases h
    exact ⟨_, _, rfl⟩
  · cases h
    exact ⟨_, _, rfl⟩

theorem placeFor_error {path : Text} {fault : PathFault} (hstorable : path.Storable)
    (h : t.placeFor path = .error fault) : ∃ reason, fault = .refused reason path := by
  rw [placeFor] at h
  split at h
  · cases h
  · cases h
    exact ⟨_, rfl⟩
  · cases h
    exact ⟨_, rfl⟩
  · rename_i s hmissing
    obtain ⟨rfl, -⟩ := find_refused hmissing
    simp only at h
    split at h
    · split_ifs at h
      all_goals
        cases h
        exact ⟨_, rfl⟩
    · cases h
      exact ⟨_, rfl⟩
  · rename_i fault' hnot hfind
    cases h
    exact find_error hstorable hfind

/-- An absolute path can only lead to the place of its own names. -/
theorem find_absolute {e : Entry} (hp : p.Absolute) (h : t.find p.text = .ok (place, e)) :
    place = p.place ∧ t.entryAt? p.place = some e := by
  obtain ⟨-, -, -, hfollow, he⟩ := find_eq_ok.mp h
  rw [follow_text t hp] at hfollow
  obtain rfl : place = p.place := follow_ok hp.names hfollow
  exact ⟨rfl, he⟩

/-- A question about a path has no answer only where the path is too long or may not be followed. -/
theorem ask_error {path : Text} {question : Entry → Bool} {fault : PathFault}
    (h : t.ask path question = .error fault) :
    ∃ reason : PathReason, reason.Unanswered ∧ fault = .refused reason path ∧
      t.find path = .error (.refused reason path) := by
  rw [ask] at h
  split at h
  · cases h
  · rename_i s hfind
    obtain ⟨rfl, -⟩ := find_refused hfind
    cases h
    exact ⟨.nameTooLong, Or.inl rfl, rfl, hfind⟩
  · rename_i s hfind
    obtain ⟨rfl, -⟩ := find_refused hfind
    cases h
    exact ⟨.denied, Or.inr rfl, rfl, hfind⟩
  · cases h

theorem ask_unanswered {path s : Text} {reason : PathReason} (h : reason.Unanswered)
    (hfind : t.find path = .error (.refused reason s)) (question : Entry → Bool) :
    t.ask path question = .error (.refused reason s) := by
  rcases h with rfl | rfl <;> rw [ask, hfind]

/-- A path that leads nowhere is no reason for a question to have no answer. -/
theorem ask_answered {path : Text} {question : Entry → Bool} {fault : PathFault}
    (hfind : t.find path = .error fault)
    (h : ∀ reason s, fault = .refused reason s → ¬ reason.Unanswered) :
    t.ask path question = .ok false := by
  rcases hask : t.ask path question with cause | _ | _
  · obtain ⟨reason, hreason, -, hrefused⟩ := ask_error hask
    rw [hfind, Except.error.injEq] at hrefused
    exact absurd hreason (h reason _ hrefused)
  · rfl
  · rw [ask, hfind] at hask
    split at hask
    · rename_i hfound
      cases hfound
    · cases hask
    · cases hask
    · cases hask

theorem holds_true {e : Text} (h : t.holds e = .ok true) : ∃ q entry, t.find e = .ok (q, entry) := by
  rw [holds, ask] at h
  split at h
  · exact ⟨_, _, ‹_›⟩
  · cases h
  · cases h
  · cases h

theorem holds_false {e : Text} (h : t.holds e = .ok false) :
    ∃ fault, t.find e = .error fault ∧
      ∀ reason s, fault = .refused reason s → ¬ reason.Unanswered := by
  rw [holds, ask] at h
  split at h
  · cases h
  · cases h
  · cases h
  · rename_i fault hlong hdenied hfind
    refine ⟨fault, hfind, fun reason s he hnot => ?_⟩
    rcases hnot with rfl | rfl
    · exact hlong s he
    · exact hdenied s he

theorem find_of_isFile {path : Text} (h : t.isFile path = .ok true) :
    ∃ q bytes, t.find path = .ok (q, .file bytes) := by
  rw [isFile, ask] at h
  split at h
  · rename_i q e hfind
    rcases e with bytes | _ | _
    · exact ⟨q, bytes, hfind⟩
    · cases h
    · cases h
  · cases h
  · cases h
  · cases h

/-- Where an absolute path leads nowhere for want of an entry, and the path before it leads to a
place, what is missing is the entry at the place of the whole path. -/
theorem entryAt?_of_missing {s : Text} {q : Location} (hp : p.Absolute) (hne : p.names ≠ [])
    (h : t.find p.text = .error (.refused .missing s))
    (hq : t.follow [] p.names.dropLast = .ok q) : t.entryAt? p.place = none := by
  have hsplit : p.names.dropLast ++ [p.names.getLast hne] = p.names :=
    List.dropLast_append_getLast hne
  have hlast : IsName (p.names.getLast hne) := hp.names _ (List.getLast_mem hne)
  have hqn : q = .ofNames p.names.dropLast :=
    follow_ok (fun n hn => hp.names n (List.dropLast_subset _ hn)) hq
  have hfollow : t.follow [] p.names = t.step q (p.names.getLast hne) := by
    conv_lhs => rw [← hsplit]
    rw [follow_snoc, hq]
    rfl
  rw [find_storable (find_refused h).2] at h
  split at h
  · rename_i hnil
    rw [hp.text_eq] at hnil
    cases hnil
  split at h
  · cases h
  -- The way up to the last name is there, so it is the last step that has to have failed.
  rw [follow_text t hp, hfollow] at h
  rcases hs : t.step q (p.names.getLast hne) with reason | next
  · rw [hs] at h
    cases h
    have hmissing := step_missing hlast hs
    rwa [hqn, ← Location.ofNames_concat, hsplit] at hmissing
  · obtain ⟨rfl, hsome⟩ := step_ok hlast hs
    rw [hs] at h
    obtain ⟨entry, hentry⟩ := Option.isSome_iff_exists.mp hsome
    simp only [hentry] at h
    cases h

/-- A file written under a free absolute path goes to the place of the path, where there was
nothing. -/
theorem placeFor_free (hp : p.Absolute) (hne : p.names ≠ []) (hfree : t.holds p.text = .ok false)
    (h : t.placeFor p.text = .ok place) : place = p.place ∧ t.entryAt? p.place = none := by
  obtain ⟨fault, hfind, -⟩ := holds_false hfree
  rw [placeFor, hfind] at h
  split at h
  · cases ‹Except.error fault = .ok _›
  · cases ‹Except.error fault = .ok _›
  · cases ‹Except.error fault = .ok _›
  · rename_i s hmissing
    cases hmissing
    have hdrop : ([] :: p.names : List Text).dropLast = [] :: p.names.dropLast :=
      List.dropLast_cons_of_ne_nil hne
    -- The place is looked for along all names but the last one.
    simp only [namesOf, split_text hp hne, hdrop, start_text t hp] at h
    rw [follow, List.foldlM_cons, step_nil] at h
    rcases hf : t.follow [] p.names.dropLast with reason | q
    · have hf' : List.foldlM t.step [] p.names.dropLast = Except.error reason := hf
      simp only [bind, Except.bind, hf'] at h
      cases h
    · have hf' : List.foldlM t.step [] p.names.dropLast = Except.ok q := hf
      simp only [bind, Except.bind, hf'] at h
      refine ⟨?_, entryAt?_of_missing hp hne hfind hf⟩
      have hqn : q = .ofNames p.names.dropLast :=
        follow_ok (fun n hn => hp.names n (List.dropLast_subset _ hn)) hf
      split at h
      · cases h
      split at h
      · cases h
      cases h
      have hlast : ([] :: p.names : List Text).getLast? = some (p.names.getLast hne) := by
        rw [List.getLast?_cons, List.getLast?_eq_some_getLast hne]
        rfl
      rw [hqn, hlast, Option.getD_some, ← Location.ofNames_concat,
        List.dropLast_append_getLast hne, Path.place]
  · cases h

end FileTree

end LiteralSplice
