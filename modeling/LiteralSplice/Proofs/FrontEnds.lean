/-
The ways in which a hand-off can arrive.

* **`FrontEnd.translate`**: the hand-off of a document, of a listing, or of two lists of lines;
* **`FrontEnd.translate_document`**, **`FrontEnd.translate_listing`**,
  **`FrontEnd.translate_lines`**: what comes of each of them;
* **`FrontEnd.translate_agree`**: the same lines are handed off whichever way they come, or are
  refused, if a literal is repeated, whichever way they come.
-/
import LiteralSplice.Proofs.Documents
import LiteralSplice.Proofs.Handoffs
import LiteralSplice.Proofs.Listings
import LiteralSplice.Source

namespace LiteralSplice

/-- A file holds a text in UTF-8. -/
def FileTree.Stores (t : FileTree) (path : Path) (content : Text) : Prop :=
  ∃ bytes, Utf8.encode content = .ok bytes ∧ t.read path.text = .ok bytes

theorem FileTree.isFile_of_read_eq {t : FileTree} {path : Text} {bytes : Bytes}
    (h : t.read path = .ok bytes) : t.isFile path = .ok true := by
  rw [read] at h
  rw [isFile, ask]
  rcases hfind : t.find path with fault | ⟨place, content | _ | _⟩
  · rw [hfind] at h
    cases h
  · rfl
  · rw [hfind] at h
    cases h
  · rw [hfind] at h
    cases h

/-- Whether a hand-off is refused as such, rather than for what the system, the decoder or the stack
says. -/
def SourceFault.IsTranslation : SourceFault → Prop
  | .unresolved _ => False
  | .unreadable _ .zero => False
  | .unreadable _ (.unencodable _) => False
  | .undocumented _ (.undecodable _) => False
  | .undocumented _ (.malformed (.exceeded _)) => False
  | .undocumented _ (.strained _) => False
  | _ => True

/-- A way in which a hand-off arrives. -/
inductive FrontEnd where
  | document (path : Path)
  | listing (path : Path)
  | lines (instructions literals : List Text) (source : Text)

namespace FrontEnd

section

variable [Stack]

/-- The hand-off that arrives. -/
def translate (t : FileTree) : FrontEnd → Except SourceFault (Handoff Text)
  | .document path => do
    let s ← Source.openAs t path .document
    (s.handoff t).answer
  | .listing path => do
    let s ← Source.openAs t path .listing
    (s.handoff t).answer
  | .lines instructions literals source =>
    (Handoff.check ⟨instructions.map .string, literals.map .string, source⟩).mapError .misshapen

variable {t : FileTree} {path : Path} {instructions literals padded : List Text} {text : Text}
  {v : Json}

omit [Stack] in
/-- What has been read passes the check unless a literal is repeated. -/
theorem checkRepeats_cases (h : Handoff Text) :
    (h.literals.Nodup → h.checkRepeats.mapError SourceFault.misshapen = .ok h) ∧
      (¬ h.literals.Nodup → ∃ fault,
        h.checkRepeats.mapError SourceFault.misshapen = .error fault ∧ fault.IsTranslation) := by
  constructor
  · intro hnodup
    rw [Handoff.checkRepeats_of_nodup hnodup]
    rfl
  · intro hrepeats
    obtain ⟨line, hline⟩ := Handoff.checkRepeats_of_not_nodup hrepeats
    exact ⟨.misshapen (.repeated h.source line), by rw [hline]; rfl, trivial⟩

/-- A hand-off of the given lines, or a refusal if a literal is repeated. -/
def Yields (t : FileTree) (instructions literals : List Text) (frontEnd : FrontEnd) : Prop :=
  (literals.Nodup → ∃ source, frontEnd.translate t = .ok ⟨instructions, literals, source⟩) ∧
    (¬ literals.Nodup → ∃ fault, frontEnd.translate t = .error fault ∧ fault.IsTranslation)

theorem translate_lines (t : FileTree) (instructions literals : List Text) (source : Text) :
    Yields t instructions literals (.lines instructions literals source) := by
  obtain ⟨haccepted, hrefused⟩ := checkRepeats_cases ⟨instructions, literals, source⟩
  rw [Yields, translate, Handoff.check_map_string]
  exact ⟨fun hnodup => ⟨source, haccepted hnodup⟩, hrefused⟩

theorem answer_of_load {s loaded : Source} {notices : List Notice}
    (h : s.load t = .ok (loaded, notices)) :
    (s.handoff t).answer = loaded.contents.checkRepeats.mapError .misshapen := by
  rw [Source.handoff, Source.ask, h]

theorem answer_of_fault {s : Source} {fault : SourceFault} (h : s.load t = .error fault) :
    (s.handoff t).answer = .error fault := by
  rw [Source.handoff, Source.ask, h]

/-- The hand-off of a document that has been read is checked for repetitions. -/
theorem answer_of_document {bytes : Bytes} {d : Document} (hread : t.read path.text = .ok bytes)
    (hd : Document.ofBytes bytes = .ok d) :
    ((Source.document path none).handoff t).answer
      = (d.handoff path.name).checkRepeats.mapError .misshapen := by
  have hload : Document.load t path = .ok d := by
    rw [Document.load, hread]
    simp only [Except.mapError, bind, Except.bind, hd]
  have hsource : (Source.document path none).load t = .ok (.document path (some d), [⟨.info,
      "program_assembler.adapters.json_unit", "Loaded hand-off document " ++ path.text⟩]) := by
    rw [Source.load, hload]
    rfl
  exact answer_of_load hsource

/-- A document is refused by its schema if a literal is repeated, and is checked once more if
none is. -/
theorem translate_document (hstores : t.Stores path text) (htext : Json.Encodes text v)
    (hv : Document.IsPair instructions literals v) :
    Yields t instructions literals (.document path) := by
  obtain ⟨bytes, hencode, hread⟩ := hstores
  obtain ⟨haccepted, hrefused⟩ := Document.ofBytes_pair hencode htext hv
  constructor
  · intro hnodup
    refine ⟨path.name, (answer_of_document hread (haccepted hnodup)).trans ?_⟩
    exact (checkRepeats_cases ⟨instructions, literals, path.name⟩).1 hnodup
  · intro hrepeats
    obtain ⟨m, hm⟩ := hrefused hrepeats
    have hload : Document.load t path = .error (.undocumented path (.mismatch m)) := by
      rw [Document.load, hread]
      simp only [Except.mapError, bind, Except.bind, hm]
    have hsource : (Source.document path none).load t
        = .error (.undocumented path (.mismatch m)) := by
      rw [Source.load, hload]
      rfl
    exact ⟨.undocumented path (.mismatch m), answer_of_fault hsource, trivial⟩

/-! ### Listings -/

omit [Stack] in
theorem isFile_of_stores (h : t.Stores path text) : t.isFile path.text = .ok true := by
  obtain ⟨bytes, -, hread⟩ := h
  exact FileTree.isFile_of_read_eq hread

omit [Stack] in
theorem existing?_of_stores (h : t.Stores path text) :
    Companions.existing? t path = .ok (some path) := by
  rw [Companions.existing?, isFile_of_stores h]
  rfl

omit [Stack] in
theorem load_of_stores {lines : List Text} (h : t.Stores path (Records.listed lines))
    (hlines : ∀ line ∈ lines, CodePoint.ofChar '\n' ∉ line) :
    Records.load t path.text = .ok (lines.map Records.dropReturn) := by
  obtain ⟨bytes, hencode, hread⟩ := h
  rw [Records.load, hread]
  have hrecords : Records.ofBytes bytes = .ok (lines.map Records.dropReturn) := by
    rw [Records.ofBytes, Utf8.decode_encode hencode, ← Records.ofText_listed hlines]
    rfl
  simp only [Except.mapError, bind, Except.bind, hrecords]

/-- The path of the file of a listing with an ending. -/
def companion (path : Path) (ending : Text) : Path :=
  path.parent.join (Companions.stemOf path.name ++ ending)

/-- The files of a listing, where both are there. -/
def bothFiles (path : Path) : Companions :=
  ⟨Companions.stemOf path.name, some (companion path ".text"), some (companion path ".strings")⟩

omit [Stack] in
theorem resolve_of_stores {text' : Text} (htext : t.Stores (companion path ".text") text)
    (hstrings : t.Stores (companion path ".strings") text') :
    Companions.resolve t path = .ok (bothFiles path) := by
  have hfirst := existing?_of_stores htext
  have hsecond := existing?_of_stores hstrings
  rw [companion] at hfirst hsecond
  rw [Companions.resolve, Companions.instructionEnding, Companions.literalEnding]
  simp only [hfirst, hsecond, bind, Except.bind]
  rfl

/-- A listing gives its lines, less the blank ones among its literals. -/
theorem translate_listing (hinstructions : ∀ line ∈ instructions, Records.IsRecord line)
    (hliterals : ∀ line ∈ literals, Records.IsRecord line)
    (hsome : ∀ line ∈ literals, ∃ c ∈ line, c.isBlank = false)
    (hpadded : Records.Padded literals padded)
    (htext : t.Stores (companion path ".text") (Records.listed instructions))
    (hstrings : t.Stores (companion path ".strings") (Records.listed padded)) :
    Yields t instructions literals (.listing path) := by
  have hlines : Records.load t (companion path ".text").text = .ok instructions := by
    have hsame : instructions.map Records.dropReturn = instructions.map id :=
      List.map_congr_left fun line hline => Records.dropReturn_of_isRecord (hinstructions line hline)
    rw [load_of_stores htext fun line hline => (hinstructions line hline).feed, hsame,
      List.map_id]
  have hpool : Records.load t (companion path ".strings").text
      = .ok (padded.map Records.dropReturn) :=
    load_of_stores hstrings (hpadded.feed fun line hline => (hliterals line hline).feed)
  -- The blank lines that were put in are left out before anything is checked.
  have hload : (bothFiles path).load t = .ok ⟨instructions, literals⟩ := by
    rw [Companions.load, bothFiles]
    simp only [hlines, hpool, Except.mapError, bind, Except.bind,
      Records.nonblank_padded hpadded hliterals hsome]
    rfl
  have htranslate : translate t (.listing path)
      = ((Source.listing (bothFiles path) none).handoff t).answer := by
    rw [translate, Source.openAs, resolve_of_stores htext hstrings]
    rfl
  obtain ⟨loaded, notices, hsource, hcontents⟩ : ∃ loaded notices,
      (Source.listing (bothFiles path) none).load t = .ok (loaded, notices) ∧
        loaded.contents = ⟨instructions, literals,
          Companions.stemOf path.name ++ Companions.instructionEnding⟩ := by
    rw [Source.load, hload]
    exact ⟨_, _, rfl, rfl⟩
  rw [Yields, htranslate, answer_of_load hsource, hcontents]
  obtain ⟨haccepted, hrefused⟩ := checkRepeats_cases ⟨instructions, literals,
    Companions.stemOf path.name ++ Companions.instructionEnding⟩
  exact ⟨fun hnodup => ⟨_, haccepted hnodup⟩, hrefused⟩

/-! ### All of them -/

/-- **The same lines are handed off whichever way they come.**  As a document, as the two files of
a listing, or as two lists, they are accepted if no literal is repeated, and then there is one
program or one refusal of all; if a literal is repeated, each of them is refused. -/
theorem translate_agree {document listing : Path} {source : Text}
    (hinstructions : ∀ line ∈ instructions, Records.IsRecord line)
    (hliterals : ∀ line ∈ literals, Records.IsRecord line)
    (hsome : ∀ line ∈ literals, ∃ c ∈ line, c.isBlank = false)
    (hdocument : t.Stores document text) (hencodes : Json.Encodes text v)
    (hpair : Document.IsPair instructions literals v)
    (htext : t.Stores (companion listing ".text") (Records.listed instructions))
    (hpadded : Records.Padded literals padded)
    (hstrings : t.Stores (companion listing ".strings") (Records.listed padded)) :
    ∀ frontEnd ∈ [FrontEnd.document document, .listing listing,
        .lines instructions literals source],
      (literals.Nodup → ∃ h, frontEnd.translate t = .ok h ∧ h.instructions = instructions ∧
        h.literals = literals ∧ h.assemble.map Program.lines = splice instructions literals) ∧
      (¬ literals.Nodup → ∃ fault, frontEnd.translate t = .error fault ∧ fault.IsTranslation) := by
  have hyields : ∀ frontEnd ∈ [FrontEnd.document document, .listing listing,
      .lines instructions literals source], Yields t instructions literals frontEnd := by
    intro frontEnd hmem
    simp only [List.mem_cons, List.not_mem_nil, or_false] at hmem
    rcases hmem with rfl | rfl | rfl
    · exact translate_document hdocument hencodes hpair
    · exact translate_listing hinstructions hliterals hsome hpadded htext hstrings
    · exact translate_lines t instructions literals source
  intro frontEnd hmem
  obtain ⟨haccepted, hrefused⟩ := hyields frontEnd hmem
  refine ⟨fun hnodup => ?_, hrefused⟩
  obtain ⟨name, htranslate⟩ := haccepted hnodup
  refine ⟨_, htranslate, rfl, rfl, ?_⟩
  rw [Handoff.assemble]
  rcases splice instructions literals with fault | lines <;> rfl

end

/-! ### The same lines three times -/

/-- Whether a character stands for itself between quotes. -/
def standsForItself (c : CodePoint) : Bool :=
  0x20 ≤ c.val && c != CodePoint.ofChar '"' && c != CodePoint.ofChar '\\'

theorem spellsText_self {s : Text} (h : s.all standsForItself = true) : Json.SpellsText s s := by
  induction s with
  | nil => exact .nil
  | cons c s ih =>
    rw [List.all_cons, Bool.and_eq_true] at h
    obtain ⟨hc, hs⟩ := h
    simp only [standsForItself, Bool.and_eq_true, decide_eq_true_eq, bne_iff_ne] at hc
    exact .plain hc.1.1 hc.1.2 hc.2 (ih hs)

/-- A document with an escape, a return between its members, and its literals ahead. -/
def agreeingDocument : Text :=
  "\x7b\"literals\":[\"s\"] ,\r\"instructions\":[\"\\u0061\"]\x7d"

/-- A directory with that document, and with a listing of the same lines. -/
def agreeingTree : FileTree :=
  ⟨[(.ofNames ["w"], .directory),
    (.ofNames ["w", "p.json"], .file (agreeingDocument.flatMap Utf8.bytesOf)),
    (.ofNames ["w", "q.text"], .file (("a\n" : Text).flatMap Utf8.bytesOf)),
    (.ofNames ["w", "q.strings"], .file (("\ns\n \r\n" : Text).flatMap Utf8.bytesOf))],
    ["w"]⟩

theorem agreeingDocument_encodes :
    Json.Encodes agreeingDocument (.object (Document.pairMembers ["a"] ["s"]).reverse) := by
  have hnone : Json.Spaces [] := nofun
  have hspace : Json.Spaces " " := List.all_eq_true.mp (by decide)
  have hreturn : Json.Spaces "\r" := List.all_eq_true.mp (by decide)
  have hletter : Json.SpellsText (Json.unitEscape '0' '0' '6' '1' ++ []) "a" :=
    .unit (u := CodePoint.ofChar 'a') (by decide) (by decide) .nil
  have hname : ∀ {n : Nat} {s : Text}, s.all standsForItself = true →
      Json.Spells n _ (.value (.string s)) := fun h => .string (spellsText_self h)
  have hpool : ∀ {n : Nat}, Json.Spells (n + 1) _ (.value (.array [.string "s"])) :=
    .array hnone (.lastItem (hname (by decide)) hnone)
  have hstream : ∀ {n : Nat}, Json.Spells (n + 1) _ (.value (.array [.string "a"])) :=
    .array hnone (.lastItem (.string hletter) hnone)
  have hmembers : ∀ {n : Nat},
      Json.Spells (n + 1) _ (.members (Document.pairMembers ["a"] ["s"]).reverse) :=
    .member (hname (by decide)) hnone hnone hpool hspace hreturn
      (.lastMember (hname (by decide)) hnone hnone hstream hnone)
  exact ⟨[], _, [], hnone, .object hnone hmembers, hnone, by decide⟩

theorem isRecord_letter {c : CodePoint} (hfeed : c ≠ CodePoint.ofChar '\n')
    (hfinal : c ≠ CodePoint.ofChar '\r') : Records.IsRecord [c] :=
  ⟨fun hmem => hfeed (List.mem_singleton.mp hmem).symm, fun h => hfinal (Option.some.inj h)⟩

theorem translate_agree_escaped :
    (∀ line ∈ [("a" : Text)], Records.IsRecord line) ∧
    (∀ line ∈ [("s" : Text)], Records.IsRecord line) ∧
    (∀ line ∈ [("s" : Text)], ∃ c ∈ line, c.isBlank = false) ∧
    agreeingTree.Stores (Path.ofText "p.json") agreeingDocument ∧
    Json.Encodes agreeingDocument (.object (Document.pairMembers ["a"] ["s"]).reverse) ∧
    agreeingTree.Stores (companion (Path.ofText "q.text") ".text") (Records.listed ["a"]) ∧
    Records.Padded ["s"] [[], "s", " \r"] ∧
    agreeingTree.Stores (companion (Path.ofText "q.text") ".strings")
      (Records.listed [[], "s", " \r"]) ∧
    ∀ frontEnd ∈ [FrontEnd.document (Path.ofText "p.json"), .listing (Path.ofText "q.text"),
        .lines ["a"] ["s"] unnamedSource],
      ∃ h, frontEnd.translate agreeingTree = .ok h ∧ h.instructions = ["a"] ∧ h.literals = ["s"] ∧
        h.assemble.map Program.lines = splice [("a" : Text)] ["s"] := by
  have hinstructions : ∀ line ∈ [("a" : Text)], Records.IsRecord line :=
    List.forall_mem_singleton.mpr (isRecord_letter (by decide) (by decide))
  have hliterals : ∀ line ∈ [("s" : Text)], Records.IsRecord line :=
    List.forall_mem_singleton.mpr (isRecord_letter (by decide) (by decide))
  have hsome : ∀ line ∈ [("s" : Text)], ∃ c ∈ line, c.isBlank = false :=
    List.forall_mem_singleton.mpr ⟨CodePoint.ofChar 's', List.mem_cons_self, by decide⟩
  have hdocument : agreeingTree.Stores (Path.ofText "p.json") agreeingDocument :=
    ⟨agreeingDocument.flatMap Utf8.bytesOf, rfl, rfl⟩
  have htext : agreeingTree.Stores (companion (Path.ofText "q.text") ".text")
      (Records.listed ["a"]) := ⟨("a\n" : Text).flatMap Utf8.bytesOf, rfl, rfl⟩
  have hstrings : agreeingTree.Stores (companion (Path.ofText "q.text") ".strings")
      (Records.listed [[], "s", " \r"]) :=
    ⟨("\ns\n \r\n" : Text).flatMap Utf8.bytesOf, rfl, rfl⟩
  have hpadded : Records.Padded ["s"] [[], "s", " \r"] := by
    refine .blank nofun List.not_mem_nil (.line _ (.blank ?_ ?_ .nil))
    · exact List.all_eq_true.mp (by decide)
    · decide
  refine ⟨hinstructions, hliterals, hsome, hdocument, agreeingDocument_encodes, htext, hpadded,
    hstrings, fun frontEnd hmem => ?_⟩
  exact (translate_agree hinstructions hliterals hsome hdocument agreeingDocument_encodes
    (Or.inr rfl) htext hpadded hstrings frontEnd hmem).1 (List.nodup_singleton _)

end FrontEnd

end LiteralSplice
