/-
What a document can fail for.

* **`Document.infix_of_unifyFeeds`**: digits stand in a row in a file if they do so in its text
  with the line feeds made alike;
* **`Document.Exhausts`**: a file takes more of the stack than there is;
* **`FrontEnd.Escapes`**: a document fails for what the system or the decoder says, and not as a
  hand-off that is refused;
* **`FrontEnd.translate_document_faults`**: these are the documents that do, and every other one
  is handed off or refused;
* **`FrontEnd.translate_document_faulty`**: documents that leave by each of the ways.

Design notes: the ways out are said of the path, of the bytes of the file and of its text, not
through the loader.  Two of them are left to documents that are nested more than a hundred levels
deep: brackets that are too many to be read, and a value that cannot be told to be wrong.
-/
import LiteralSplice.Proofs.Decodings
import LiteralSplice.Proofs.Levels
import LiteralSplice.Proofs.FrontEnds
import LiteralSplice.Proofs.Places
import LiteralSplice.Proofs.Snapshots

namespace LiteralSplice

/-- What takes more of the stack than there is is not refused as a hand-off. -/
theorem SourceFault.not_isTranslation_of_exhausts {fault : SourceFault}
    (h : fault.exhausts = true) : ¬ fault.IsTranslation := by
  cases fault with
  | undocumented path cause =>
    cases cause with
    | malformed f =>
      cases f with
      | malformed => cases h
      | exceeded => exact id
    | undecodable | strained => exact id
    | mismatch => cases h
  | _ => cases h

namespace Document

/-- What has no line feed and begins where there is one is empty. -/
theorem eq_nil_of_prefix_feed {run r : Text} (hrun : CodePoint.ofChar '\n' ∉ run)
    (h : run <+: CodePoint.ofChar '\n' :: r) : run = [] := by
  rcases run with _ | ⟨c, run⟩
  · rfl
  · obtain ⟨rfl, -⟩ := List.cons_prefix_cons.mp h
    exact absurd List.mem_cons_self hrun

theorem prefix_of_unifyFeeds {run t : Text} (hrun : CodePoint.ofChar '\n' ∉ run)
    (h : run <+: unifyFeeds t) : run <+: t := by
  fun_induction unifyFeeds t generalizing run with
  | case1 | case3 => exact h
  | case2 | case4 | case5 => exact eq_nil_of_prefix_feed hrun h ▸ List.nil_prefix
  | case6 c d rest hc ih =>
    rcases run with _ | ⟨x, run⟩
    · exact List.nil_prefix
    · obtain ⟨rfl, hr⟩ := List.cons_prefix_cons.mp h
      exact List.cons_prefix_cons.mpr ⟨rfl, ih (List.not_mem_of_not_mem_cons hrun) hr⟩

/-- What stands in a text with its line feeds made alike and holds none stands in the text. -/
theorem infix_of_unifyFeeds {run t : Text} (hrun : CodePoint.ofChar '\n' ∉ run)
    (h : run <:+: unifyFeeds t) : run <:+: t := by
  fun_induction unifyFeeds t with
  | case1 | case3 => exact h
  | case2 =>
    rcases List.infix_cons_iff.mp h with h | h
    · exact eq_nil_of_prefix_feed hrun h ▸ List.nil_infix
    · exact List.eq_nil_of_infix_nil h ▸ List.nil_infix
  | case4 rest ih =>
    rcases List.infix_cons_iff.mp h with h | h
    · exact eq_nil_of_prefix_feed hrun h ▸ List.nil_infix
    · exact (ih h).trans ((List.suffix_cons _ rest).trans (List.suffix_cons _ _)).isInfix
  | case5 d rest hd ih =>
    rcases List.infix_cons_iff.mp h with h | h
    · exact eq_nil_of_prefix_feed hrun h ▸ List.nil_infix
    · exact (ih h).trans (List.suffix_cons _ _).isInfix
  | case6 c d rest hc ih =>
    rcases List.infix_cons_iff.mp h with h | h
    · exact (prefix_of_unifyFeeds hrun ((unifyFeeds_cons hc (d :: rest)).symm ▸ h)).isInfix
    · exact (ih h).trans (List.suffix_cons _ _).isInfix

/-! ### Bytes that hold no document -/

variable [Stack] {bytes : Bytes}

theorem ofBytes_eq_undecodable {fault : Utf8.Fault} :
    ofBytes bytes = .error (.undecodable fault) ↔ Utf8.decode bytes = .error fault := by
  rw [ofBytes]
  rcases Utf8.decode bytes with f | text
  · simp only [Except.mapError, bind, Except.bind, Except.error.injEq,
      DocumentFault.undecodable.injEq]
  · simp only [Except.mapError, bind, Except.bind, reduceCtorEq, iff_false]
    rcases Json.readDocument (unifyFeeds text) with f | v
    · rintro ⟨⟩
    · simp only
      rcases ofJson v with m | d
      · rcases refusal_cases v m with hr | ⟨message, -, hr⟩ <;> simp only [hr] <;> rintro ⟨⟩
      · rintro ⟨⟩

theorem ofBytes_eq_malformed {fault : Json.Fault} :
    ofBytes bytes = .error (.malformed fault) ↔
      ∃ text, Utf8.decode bytes = .ok text ∧
        Json.readDocument (unifyFeeds text) = .error fault := by
  rw [ofBytes]
  rcases Utf8.decode bytes with f | text
  · simp only [Except.mapError, bind, Except.bind, Except.error.injEq, reduceCtorEq, false_and,
      exists_false]
  · simp only [Except.mapError, bind, Except.bind, Except.ok.injEq, exists_eq_left']
    rcases Json.readDocument (unifyFeeds text) with f | v
    · simp only [Except.error.injEq, DocumentFault.malformed.injEq]
    · simp only [reduceCtorEq, iff_false]
      rcases ofJson v with m | d
      · rcases refusal_cases v m with hr | ⟨message, -, hr⟩ <;> simp only [hr] <;> rintro ⟨⟩
      · rintro ⟨⟩

theorem ofBytes_eq_strained {message : Text} :
    ofBytes bytes = .error (.strained message) ↔
      ∃ text v, Utf8.decode bytes = .ok text ∧ Json.readDocument (unifyFeeds text) = .ok v ∧
        schema.mismatches v ≠ [] ∧ Stack.strain v = some message := by
  rw [ofBytes]
  rcases Utf8.decode bytes with f | text
  · simp only [Except.mapError, bind, Except.bind, Except.error.injEq, reduceCtorEq, false_and,
      exists_false]
  · simp only [Except.mapError, bind, Except.bind, Except.ok.injEq, exists_and_left,
      exists_eq_left']
    rcases Json.readDocument (unifyFeeds text) with f | v
    · simp only [Except.error.injEq, reduceCtorEq, false_and, exists_false]
    · simp only [Except.ok.injEq, exists_eq_left', ne_eq, ← Json.decisive?_eq_none]
      rw [ofJson]
      rcases Json.decisive? (schema.mismatches v) with _ | m
      · simp only [reduceCtorEq, not_true, false_and]
      · simp only [reduceCtorEq, not_false_iff, true_and, refusal]
        rcases Stack.strain v with _ | said
        · simp only [Except.error.injEq, reduceCtorEq]
        · simp only [Except.error.injEq, DocumentFault.strained.injEq, Option.some.injEq]

/-- Reading a file, or telling what is wrong with its value, takes more of the stack than there
is. -/
inductive Exhausts (bytes : Bytes) : Prop
  /-- Nothing is wrong with the text up to a bracket that is one level too many. -/
  | nested {text bracket} (htext : Utf8.encode text = .ok bytes)
      (hmark : (unifyFeeds text).head? ≠ some (CodePoint.ofNat 0xFEFF))
      (h : Json.Meets (.nesting bracket) Stack.levels .value (Json.skip (unifyFeeds text)))
  | strained {text v message} (htext : Utf8.encode text = .ok bytes)
      (hread : Json.readDocument (unifyFeeds text) = .ok v) (hmismatch : schema.mismatches v ≠ [])
      (h : Stack.strain v = some message)

/-- A file takes more of the stack than there is exactly if that is why it holds no document. -/
theorem exhausts_iff :
    Exhausts bytes ↔ ∃ cause, ofBytes bytes = .error cause ∧ cause.exhausts = true := by
  constructor
  · rintro (⟨htext, hmark, h⟩ | ⟨htext, hread, hmismatch, h⟩)
    · exact ⟨_, ofBytes_eq_malformed.mpr
        ⟨_, Utf8.decode_encode htext, Json.readDocument_eq_exceeded.mpr ⟨hmark, h⟩⟩, rfl⟩
    · exact ⟨_, ofBytes_eq_strained.mpr ⟨_, _, Utf8.decode_encode htext, hread, hmismatch, h⟩,
        rfl⟩
  · rintro ⟨cause, hcause, h⟩
    cases cause with
    | undecodable f => cases h
    | malformed f =>
      rcases f with _ | _ | bracket
      · cases h
      · cases h
      · obtain ⟨text, htext, hread⟩ := ofBytes_eq_malformed.mp hcause
        obtain ⟨hmark, hmeets⟩ := Json.readDocument_eq_exceeded.mp hread
        exact .nested (Utf8.decode_eq_ok.mp htext) hmark hmeets
    | mismatch m => cases h
    | strained message =>
      obtain ⟨text, v, htext, hread, hmismatch, h⟩ := ofBytes_eq_strained.mp hcause
      exact .strained (Utf8.decode_eq_ok.mp htext) hread hmismatch h

/-- A file whose text is nested a hundred levels deep at most leaves enough of the stack. -/
theorem not_exhausts {text : Text} (htext : Utf8.encode text = .ok bytes)
    (h : Json.NestedWithin 100 (unifyFeeds text)) : ¬ Exhausts bytes := by
  have hsame : ∀ {text'}, Utf8.encode text' = .ok bytes → text' = text := fun htext' =>
    Except.ok.inj ((Utf8.decode_encode htext').symm.trans (Utf8.decode_encode htext))
  rintro (⟨htext', -, hmeets⟩ | ⟨htext', hread, -, hstrain⟩)
  · obtain rfl := hsame htext'
    exact h.not_meets hmeets
  · obtain rfl := hsame htext'
    have hflat := h.depth_le hread
    rw [Stack.strain_of_depth_le _ hflat] at hstrain
    cases hstrain

end Document

namespace FrontEnd

section

variable [Stack] {t : FileTree} {path : Path}

/-- A document fails for what the system or the decoder says. -/
inductive Escapes (t : FileTree) (path : Path) : Prop
  /-- The path cannot be put to the system: it holds a zero or has no bytes. -/
  | path (h : ¬ path.text.Storable)
  /-- The bytes of the file are those of no text. -/
  | bytes {bytes} (hread : t.read path.text = .ok bytes) (h : ∀ text, Utf8.encode text ≠ .ok bytes)
  /-- Nothing is wrong with the text of the file up to an integer that is too long. -/
  | integer {bytes text n} (hread : t.read path.text = .ok bytes)
      (htext : Utf8.encode text = .ok bytes)
      (hmark : (Document.unifyFeeds text).head? ≠ some (CodePoint.ofNat 0xFEFF))
      (h : Json.Meets (.digits n) Stack.levels .value (Json.skip (Document.unifyFeeds text)))
  /-- The file takes more of the stack than there is. -/
  | stack {bytes} (hread : t.read path.text = .ok bytes) (h : Document.Exhausts bytes)

/-- A document that is not loaded is not handed off. -/
theorem translate_of_load_fault {fault : SourceFault} (h : Document.load t path = .error fault) :
    translate t (.document path) = .error fault := by
  refine answer_of_fault ?_
  rw [Source.load, h]
  rfl

theorem load_of_ofBytes_fault {bytes : Bytes} {cause : DocumentFault}
    (hread : t.read path.text = .ok bytes) (h : Document.ofBytes bytes = .error cause) :
    Document.load t path = .error (.undocumented path cause) := by
  rw [Document.load, hread]
  simp only [Except.mapError, bind, Except.bind, h]

theorem Escapes.load_fault (h : Escapes t path) :
    ∃ fault, Document.load t path = .error fault ∧ ¬ fault.IsTranslation := by
  cases h with
  | path h =>
    obtain ⟨fault, hfault, hnot⟩ := FileTree.read_not_storable (t := t) h
    refine ⟨.unreadable path fault, ?_, ?_⟩
    · rw [Document.load, hfault]
      rfl
    · cases fault with
      | unencodable | zero => exact id
      | refused reason s => exact absurd rfl (hnot reason s)
  | bytes hread h =>
    obtain ⟨fault, hfault⟩ := Utf8.decode_eq_error.mpr h
    exact ⟨.undocumented path (.undecodable fault),
      load_of_ofBytes_fault hread (Document.ofBytes_eq_undecodable.mpr hfault), id⟩
  | @integer bytes text n hread htext hmark h =>
    have hdocument := Json.readDocument_eq_exceeded.mpr ⟨hmark, h⟩
    exact ⟨.undocumented path (.malformed (.exceeded (.digits n))), load_of_ofBytes_fault hread
      (Document.ofBytes_eq_malformed.mpr ⟨text, Utf8.decode_encode htext, hdocument⟩), id⟩
  | stack hread h =>
    obtain ⟨cause, hcause, hexhausts⟩ := Document.exhausts_iff.mp h
    exact ⟨_, load_of_ofBytes_fault hread hcause,
      SourceFault.not_isTranslation_of_exhausts hexhausts⟩

/-- What keeps a document from being loaded otherwise is a refusal. -/
theorem isTranslation_of_load (h : ¬ Escapes t path) {fault : SourceFault}
    (hload : Document.load t path = .error fault) : fault.IsTranslation := by
  rcases hread : t.read path.text with reason | bytes
  · rw [Document.load, hread] at hload
    obtain rfl : SourceFault.unreadable path reason = fault := Except.error.inj hload
    by_cases hstorable : path.text.Storable
    · obtain ⟨r, s, rfl⟩ := FileTree.read_error hstorable hread
      exact trivial
    · exact absurd (.path hstorable) h
  rcases hd : Document.ofBytes bytes with cause | d
  · obtain rfl := Except.error.inj ((load_of_ofBytes_fault hread hd).symm.trans hload)
    have hexhausts : ∀ {cause}, Document.ofBytes bytes = .error cause →
        cause.exhausts ≠ true := fun hcause hall =>
      h (.stack hread (Document.exhausts_iff.mpr ⟨_, hcause, hall⟩))
    cases cause with
    | undecodable f =>
      have hdecode := Document.ofBytes_eq_undecodable.mp hd
      exact absurd (.bytes hread (Utf8.decode_eq_error.mp ⟨f, hdecode⟩)) h
    | malformed f =>
      rcases f with _ | n | bracket
      · exact trivial
      · obtain ⟨text, htext, hdocument⟩ := Document.ofBytes_eq_malformed.mp hd
        obtain ⟨hmark, hmeets⟩ := Json.readDocument_eq_exceeded.mp hdocument
        exact absurd (.integer hread (Utf8.decode_eq_ok.mp htext) hmark hmeets) h
      · exact absurd rfl (hexhausts hd)
    | mismatch m => exact trivial
    | strained message => exact absurd rfl (hexhausts hd)
  · rw [Document.load, hread] at hload
    simp only [Except.mapError, bind, Except.bind, hd] at hload
    cases hload

/-- **A document fails for what the system or the decoder says exactly if its path cannot be put to
the system, or its bytes are no UTF-8, or its text comes to an integer that is too long before
anything else is wrong with it, or it takes more of the stack than there is.**  Every other document
is handed off, or refused as a hand-off; and so is every readable text that has no more digits in a
row than are read and is nested a hundred levels deep at most. -/
theorem translate_document_faults (t : FileTree) (path : Path) :
    (Escapes t path →
        ∃ fault, translate t (.document path) = .error fault ∧ ¬ fault.IsTranslation) ∧
      (¬ Escapes t path → (∃ h, translate t (.document path) = .ok h) ∨
        ∃ fault, translate t (.document path) = .error fault ∧ fault.IsTranslation) ∧
      ∀ bytes text, t.read path.text = .ok bytes → Utf8.encode text = .ok bytes →
        (∀ run, run <:+: text → (∀ c ∈ run, c.isDigit = true) → run.length ≤ Text.digitLimit) →
        Json.NestedWithin 100 (Document.unifyFeeds text) → ¬ Escapes t path := by
  refine ⟨fun h => ?_, fun h => ?_, fun bytes text hread htext hruns hnested h => ?_⟩
  · obtain ⟨fault, hload, hfault⟩ := h.load_fault
    exact ⟨fault, translate_of_load_fault hload, hfault⟩
  · rcases hload : Document.load t path with fault | d
    · exact .inr ⟨fault, translate_of_load_fault hload, isTranslation_of_load h hload⟩
    · obtain ⟨bytes, hread, hd⟩ := Source.load_document_iff.mp hload
      have hanswer : translate t (.document path)
          = (d.handoff path.name).checkRepeats.mapError .misshapen := answer_of_document hread hd
      rw [hanswer]
      by_cases hnodup : (d.handoff path.name).literals.Nodup
      · exact .inl ⟨_, (checkRepeats_cases _).1 hnodup⟩
      · exact .inr ((checkRepeats_cases _).2 hnodup)
  · cases h with
    | path h =>
      obtain ⟨fault, hfault, -⟩ := FileTree.read_not_storable (t := t) h
      cases hread.symm.trans hfault
    | bytes hread' h =>
      obtain rfl := Except.ok.inj (hread.symm.trans hread')
      exact h text htext
    | @integer bytes' text' n hread' htext' _ hmeets =>
      obtain rfl := Except.ok.inj (hread.symm.trans hread')
      have hsame := (Utf8.decode_encode htext).symm.trans (Utf8.decode_encode htext')
      obtain rfl := Except.ok.inj hsame
      obtain ⟨hlimit, run, hrun, hlength, hdigits⟩ := hmeets.exists_run
      have hfeed : CodePoint.ofChar '\n' ∉ run := fun hmem => absurd (hdigits _ hmem) (by decide)
      have hshort := hruns run
        (Document.infix_of_unifyFeeds hfeed (hrun.trans (Json.skip_suffix _).isInfix)) hdigits
      omega
    | stack hread' h =>
      obtain rfl := Except.ok.inj (hread.symm.trans hread')
      exact Document.not_exhausts htext hnested h

end

/-- A number of one digit more than are read. -/
def longNumber : Text := List.replicate (Text.digitLimit + 1) (CodePoint.ofChar '1')

/-- A directory with a file of one byte, which begins no character, and with a file that holds
that number. -/
def faultyTree : FileTree :=
  ⟨[(.ofNames ["w"], .directory), (.ofNames ["w", "p.json"], .file [0xFF]),
    (.ofNames ["w", "n.json"], .file (longNumber.flatMap Utf8.bytesOf))], ["w"]⟩

theorem escapes_longNumber : Escapes faultyTree (Path.ofText "n.json") := by
  have hall : ∀ c ∈ longNumber, c = CodePoint.ofChar '1' := fun c hc => (List.mem_replicate.mp hc).2
  have hplain : longNumber.Plain := fun c hc => hall c hc ▸ rfl
  have hfeeds : Document.unifyFeeds longNumber = longNumber :=
    Document.unifyFeeds_of_not_mem fun hmem => absurd (hall _ hmem) (by decide)
  have hskip : Json.skip longNumber = longNumber := rfl
  have hlong : Json.OverLong (Text.digitLimit + 1) longNumber := by
    have hwhole : ([] : Text) ++ (longNumber ++ []) = longNumber := List.append_nil longNumber
    refine hwhole ▸ .mk (.inl rfl) ⟨?_, ?_, nofun, ?_, List.length_replicate, Nat.lt_succ_self _⟩
    · exact fun c hc => hall c hc ▸ rfl
    · exact nofun
    · rintro (⟨d, r, h, -⟩ | ⟨e, sign, d, r, h, -⟩) <;> cases h
  have hmeets : Json.Meets (.digits (Text.digitLimit + 1)) Stack.levels .value
      (Json.skip (Document.unifyFeeds longNumber)) := by
    rw [hfeeds, hskip]
    exact .number hlong
  refine .integer rfl (Utf8.encode_ok.mpr ⟨hplain, rfl⟩) ?_ hmeets
  rw [hfeeds]
  exact nofun

/-- A byte that is no UTF-8, a number that is too long, a zero in a path and half a pair in one are
not refused as faults of a hand-off. -/
theorem translate_document_faulty :
    (∃ fault, translate faultyTree (.document (Path.ofText "p.json")) = .error fault ∧
      ¬ fault.IsTranslation ∧ fault.message
        = "'utf-8' codec can't decode byte 0xff in position 0: invalid start byte") ∧
    (∃ fault, translate faultyTree (.document (Path.ofText "n.json")) = .error fault ∧
      ¬ fault.IsTranslation) ∧
    (∃ fault, translate faultyTree (.document (Path.ofText [CodePoint.ofNat 0])) = .error fault ∧
      ¬ fault.IsTranslation) ∧
    ∃ fault, translate faultyTree (.document (Path.ofText (CodePoint.ofNat 0xD800 :: ".json")))
        = .error fault ∧ ¬ fault.IsTranslation := by
  refine ⟨⟨.undocumented (Path.ofText "p.json") (.undecodable ⟨0, 0xFF, 1, .start⟩), rfl, id,
    by decide +kernel⟩, ?_, ⟨_, rfl, id⟩, ⟨_, rfl, id⟩⟩
  obtain ⟨fault, hload, hfault⟩ := escapes_longNumber.load_fault
  exact ⟨fault, translate_of_load_fault hload, hfault⟩

end FrontEnd

end LiteralSplice
