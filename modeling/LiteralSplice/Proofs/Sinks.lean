/-
All the ways in which a program comes out.

* **`Emitter.agrees_contentOf`**: what an emitter writes is the text of the program, or is read as a
  listing of that text;
* **`Batch.run_shown`**, **`Batch.run_saved`**: what a run shows and what it saves for the document
  of a hand-off;
* **`Batch.run_room`**: a run that saves comes through where there is room;
* **`Handoff.outputs_agree`**: a hand-off comes out as one text, whether a run shows it, a run saves
  it, or the service answers with it.

Design notes: everything is said of one program, that of the hand-off, so the outputs agree with
each other because each of them agrees with it.  A listing has to be read back, and a reader takes
only so many digits; the limit on the size of a hand-off is itself such a number, so the counts in a
listing are never too long for it.
-/
import LiteralSplice.Proofs.Answers
import LiteralSplice.Proofs.Bystanders
import LiteralSplice.Proofs.FrontEnds
import LiteralSplice.Proofs.Room

namespace LiteralSplice

/-! ### Agreement -/

namespace Json

/-- A value lists a text: its lines, each ended by a line feed, are the text. -/
def Lists (v : Json) (text : Text) : Prop :=
  ∃ lines : List Text, v.find? "lines" = some (.array (lines.map .string)) ∧
    (lines.flatMap fun line => line ++ ("\n" : Text)) = text

/-- A value reports how many literals a program has and where its separator is. -/
def Reports (v : Json) (p : Program Text) : Prop :=
  v.find? "literal_count" = some (.int p.literalCount) ∧
    v.find? "separator_index" = some (.int p.separatorIndex)

end Json

/-- What an emitter has written is the text of a program, or is read as a listing of that text. -/
def Emitter.Agrees [Stack] (p : Program Text) (content : Text) : Emitter → Prop
  | plainText => content = p.text
  | jsonListing => ∃ v w, Json.read content = .ok v ∧ v.Lists p.text ∧
      v.find? "splice" = some w ∧ w.Reports p

theorem Emitter.agrees_contentOf [Stack] {p : Program Text} (h : Json.Legible p.separatorIndex)
    (e : Emitter) : e.Agrees p (e.contentOf p) := by
  cases e with
  | plainText => rfl
  | jsonListing => exact ⟨_, _, read_listing h, ⟨p.lines, rfl, rfl⟩, rfl, rfl, rfl⟩

theorem Service.programValue_agrees (p : Program Text) :
    (programValue p).Lists p.text ∧ (programValue p).Reports p :=
  ⟨⟨p.lines, rfl, rfl⟩, rfl, rfl⟩

/-- The limit on the size of a hand-off is read from so many digits, and a count up to it has no
more. -/
theorem Settings.legible {environment : List (Text × Text)} {settings : Settings}
    (h : Settings.ofEnvironment environment = .ok settings) {k : Nat}
    (hk : (k : Int) ≤ settings.maxUnitLines) : Json.Legible k := by
  rw [ofEnvironment] at h
  rcases hport : Text.readInteger (valueOf environment "PORT" "8000") with fault | port
  · rw [hport] at h
    cases h
  rw [hport] at h
  rcases hlimit : Text.readInteger (valueOf environment "MAX_UNIT_LINES" "100000") with fault | n
  · rw [hlimit] at h
    cases h
  rw [hlimit] at h
  cases h
  exact Text.length_ofNat_of_readInteger hlimit hk

/-! ### Hand-offs -/

namespace Handoff

variable {h : Handoff Text} {p : Program Text}

/-- A hand-off whose source and lines have no surrogates. -/
structure Plain (h : Handoff Text) : Prop where
  source : h.source.Plain
  instructions : ∀ line ∈ h.instructions, line.Plain
  literals : ∀ line ∈ h.literals, line.Plain

theorem Plain.program (hplain : h.Plain) (ha : h.assemble = .ok p) : p.Plain := by
  rw [h.assemble_of_length (h.length_of_assemble ha)] at ha
  cases ha
  refine ⟨hplain.source, ?_⟩
  simp only [List.forall_mem_append, List.forall_mem_singleton]
  refine ⟨⟨⟨?_, hplain.literals⟩, nofun⟩, ?_⟩
  · intro line hline
    exact hplain.instructions line (List.mem_of_mem_take hline)
  · intro line hline
    exact hplain.instructions line (List.mem_of_mem_drop hline)

theorem nodup_of_checkRepeats (hshape : h.checkRepeats = .ok h) : h.literals.Nodup := by
  by_contra hrepeats
  obtain ⟨line, hline⟩ := checkRepeats_of_not_nodup hrepeats
  rw [hshape] at hline
  cases hline

/-- The index of the separator is below the number of lines that are handed off. -/
theorem separatorIndex_lt (ha : h.assemble = .ok p) :
    p.separatorIndex < h.instructions.length + h.literals.length := by
  have hlength := h.length_of_assemble ha
  rw [h.assemble_of_length hlength] at ha
  cases ha
  rw [leastInstructions] at hlength
  simp only [Program.separatorIndex]
  omega

end Handoff

/-! ### Runs -/

namespace Batch

variable [Stack] {t : FileTree} {request : Request} {job : Job} {path : Path} {h : Handoff Text}
  {p : Program Text} {settings : Settings}

/-- A request is for one document alone, which states a hand-off. -/
structure Asks (t : FileTree) (request : Request) (path : Path) (h : Handoff Text) : Prop where
  input : ∃ name, request.inputs = [name] ∧ t.resolve (Path.ofText name) = .ok path
  adapter : request.adapter = .value "json" ∨
    request.adapter = .unsaid ∧ path.suffix.lowerAscii = ".json"
  document : ∃ text ms, t.Stores path text ∧ Json.Encodes text (.object ms) ∧
    h.StatedBy "source" path.name ms

theorem source_asked (hasks : Asks t request path h) (hadapter : job.adapter = request.adapter) :
    Input.source job t path = .ok (.document path none) := by
  obtain ⟨text, ms, hstores, -, -⟩ := hasks.document
  rw [Input.source, FrontEnd.isFile_of_stores hstores]
  simp only [Except.mapError, bind, Except.bind, Bool.not_true, Bool.false_eq_true, if_false]
  rcases hasks.adapter with hjson | ⟨hunsaid, hsuffix⟩
  · have hkind : SourceKind.ofKey? "json" = some .document := by decide
    simp only [hadapter, hjson, Source.ofPath, hkind, Source.openAs]
  · have hknown : inputSuffixes.contains ".json" = true := by decide
    simp only [hadapter, hunsaid, hsuffix, hknown, if_true, Source.ofPath, SourceKind.ofPath,
      Source.openAs]

/-- The document that is asked for is read and assembled. -/
theorem read_asked (hasks : Asks t request path h) (hadapter : job.adapter = request.adapter)
    (hshape : h.literals.Nodup) (ha : h.assemble = .ok p) :
    (Input.read job t path).result = .ok p := by
  obtain ⟨text, ms, ⟨bytes, hencode, hread⟩, htext, hs⟩ := hasks.document
  -- The schema has seen to repetitions already, so the check of the hand-off changes nothing.
  obtain ⟨d, hd, rfl⟩ := Document.ofBytes_stated hencode htext hs hshape
  have hanswer : ((Source.document path none).handoff t).answer = .ok (d.handoff path.name) := by
    rw [FrontEnd.answer_of_document hread hd]
    exact (FrontEnd.checkRepeats_cases _).1 hshape
  rw [Input.read, source_asked hasks hadapter]
  simp only [hanswer, ha]

/-- The input and the directory of the outputs of a request are absolute. -/
theorem Asks.absolute (hasks : Asks t request path h) (hsited : t.Sited)
    (hstarted : jobOf? settings t request = some job) :
    path.Absolute ∧ (directoryOf job path).Absolute := by
  obtain ⟨name, -, hpath⟩ := hasks.input
  have hp := FileTree.resolve_absolute hsited hpath
  exact ⟨hp, directoryOf_absolute hsited (jobOf?_spec hstarted).1 hp⟩

theorem processAll_single {disk : Disk} {name : Text} {q : Progress}
    (hinput : request.inputs = [name]) (hpath : t.resolve (Path.ofText name) = .ok path)
    (hprocess : process disk job (.start t) path = .ok q) :
    processAll disk job (.start t) request.inputs = .ok q := by
  rw [hinput]
  exact processAll_cons_ok.mpr ⟨path, q, hpath, hprocess, rfl⟩

/-- A run that shows a program shows the text of the one that is asked for, on any disk. -/
theorem run_shown (disk : Disk) (hstarted : jobOf? settings t request = some job)
    (hasks : Asks t request path h) (hout : request.toStdout = true) (hshape : h.literals.Nodup)
    (ha : h.assemble = .ok p) (hp : p.Plain) :
    (run disk settings t request).1.stdout = p.text ∧
      (run disk settings t request).2 = .status 0 := by
  obtain ⟨-, hadapter, hshown⟩ := jobOf?_eq_some hstarted
  obtain ⟨name, hinput, hpath⟩ := hasks.input
  rw [hout] at hshown
  have hread := read_asked hasks hadapter hshape ha
  have hnone : Utf8.surrogateRun? p.text = none :=
    Utf8.surrogateRun?_eq_none.mpr (Emitter.plain_contentOf hp .plainText)
  have hprocess : process disk job (.start t) path
      = .ok { (Progress.start t).tell (Input.read job t path).events with stdout := p.text } := by
    simp only [process, hread, hshown, if_true, hnone]
    rfl
  rw [run_of_processAll hstarted (processAll_single hinput hpath hprocess), finish, if_pos hshown]
  exact ⟨rfl, rfl⟩

/-- A run that ends with zero and shows nothing has saved the outputs of the program that is asked
for, on any disk. -/
theorem run_saved (disk : Disk) (hsited : t.Sited) (hstarted : jobOf? settings t request = some job)
    (hasks : Asks t request path h) (hkept : request.toStdout = false)
    (hshape : h.literals.Nodup) (ha : h.assemble = .ok p)
    (hended : (run disk settings t request).2 = .status 0) :
    ∃ files, t.AddsUnder files (run disk settings t request).1.tree ∧
      List.Forall₂ (WrittenAs job path p) job.formats files := by
  obtain ⟨-, hadapter, hsaved⟩ := jobOf?_eq_some hstarted
  obtain ⟨name, hinput, hpath⟩ := hasks.input
  rw [hkept] at hsaved
  have hread := read_asked hasks hadapter hshape ha
  obtain ⟨habsolute, hdirectory⟩ := hasks.absolute hsited hstarted
  rcases hprocess : process disk job (.start t) path with ⟨q, cause⟩ | q
  · -- An input that ends the run leaves no status.
    have hall : processAll disk job (.start t) request.inputs = .error (q, cause) := by
      rw [hinput, processAll]
      simp only [hpath, hprocess]
      rfl
    rw [run_started hstarted, hall] at hended
    cases hended
  · have hall := processAll_single hinput hpath hprocess
    rw [run_of_processAll hstarted hall] at hended ⊢
    have hcounted : q.failures = 0 := by
      by_contra hfailed
      simp only [if_neg hfailed] at hended
      cases hended
    obtain ⟨files, hadds, hfiles⟩ :=
      Succeeds.writtenAs habsolute hdirectory ⟨hprocess, hcounted⟩ hread ha hsaved
    have htree := (finish_spec job q).1.tree
    exact ⟨files, htree ▸ hadds, hfiles⟩

/-- Where there is room, a run that saves outputs ends with zero. -/
theorem run_room (hsited : t.Sited) (hstarted : jobOf? settings t request = some job)
    (hasks : Asks t request path h) (hkept : request.toStdout = false)
    (hformats : ∀ key ∈ job.formats, (Emitter.ofKey? key).isSome) (hroomy : Roomy job t path)
    (hshape : h.literals.Nodup) (ha : h.assemble = .ok p) (hp : p.Plain) :
    (run .sound settings t request).2 = .status 0 := by
  obtain ⟨-, hadapter, hsaved⟩ := jobOf?_eq_some hstarted
  obtain ⟨name, hinput, hpath⟩ := hasks.input
  rw [hkept] at hsaved
  have hread := read_asked hasks hadapter hshape ha
  obtain ⟨habsolute, hdirectory⟩ := hasks.absolute hsited hstarted
  obtain ⟨q, hprocess, hcounted⟩ :=
    succeeds_room (p := .start t) habsolute hdirectory hread ha hp hsaved hformats hroomy
  have hnone : q.failures = 0 := hcounted
  rw [run_of_processAll hstarted (processAll_single hinput hpath hprocess), if_pos hnone]

/-- A file for a format is under a name of its emitter, and its text agrees with a program. -/
def AgreesFor (job : Job) (path : Path) (p : Program Text) (key : Text) (f : Path × Bytes) : Prop :=
  ∃ e content, Emitter.ofKey? key = some e ∧
    (∃ k, f.1 = Saving.pathOf (directoryOf job path) path.stem e.suffix k) ∧
    Utf8.decode f.2 = .ok content ∧ e.Agrees p content

theorem agreesFor_of_writtenAs (hlegible : Json.Legible p.separatorIndex) {key : Text}
    {f : Path × Bytes} (hf : WrittenAs job path p key f) : AgreesFor job path p key f := by
  obtain ⟨e, hkey, hplace, hencode⟩ := hf
  exact ⟨e, _, hkey, hplace, Utf8.decode_encode hencode, e.agrees_contentOf hlegible⟩

end Batch

/-! ### All of them -/

namespace Handoff

/-- **A hand-off comes out as one text.**  If it has the right shape and length, no surrogates, and
no more lines than are taken, it has a program, and these agree with the text of the program: what a
run shows for the document of the hand-off, every file that a run saves for it, and every answer of
the service to a call that poses it.  A run that saves does come through where there is room.  The
number of literals and the index of the separator are those of the program wherever they are
reported. -/
theorem outputs_agree [Stack] {environment : List (Text × Text)} {settings : Settings}
    {h : Handoff Text} (hsettings : Settings.ofEnvironment environment = .ok settings)
    (hshape : h.checkRepeats = .ok h) (hlength : checkLength h.instructions = .ok ())
    (hplain : h.Plain)
    (hsize : (h.instructions.length + h.literals.length : Nat) ≤ settings.maxUnitLines) :
    ∃ p, h.assemble = .ok p ∧
      (∀ disk t request job path, Batch.jobOf? settings t request = some job →
        Batch.Asks t request path h → request.toStdout = true →
        (Batch.run disk settings t request).1.stdout = p.text ∧
          (Batch.run disk settings t request).2 = .status 0) ∧
      (∀ disk t request job path, t.Sited → Batch.jobOf? settings t request = some job →
        Batch.Asks t request path h → request.toStdout = false →
        (Batch.run disk settings t request).2 = .status 0 →
        ∃ files, t.AddsUnder files (Batch.run disk settings t request).1.tree ∧
          List.Forall₂ (Batch.AgreesFor job path p) job.formats files) ∧
      (∀ t request job path, t.Sited → Batch.jobOf? settings t request = some job →
        Batch.Asks t request path h → request.toStdout = false →
        (∀ key ∈ job.formats, (Emitter.ofKey? key).isSome) → Batch.Roomy job t path →
        (Batch.run .sound settings t request).2 = .status 0) ∧
      (∀ c, Service.Poses c .assemble h →
        ∃ a v, Service.respond settings.maxUnitLines c = .ok a ∧ a.status = 200 ∧
          Json.read a.body = .ok v ∧ v.Lists p.text ∧ v.Reports p) ∧
      (∀ c e, Service.Poses c (.emit (Emitter.key e)) h →
        ∃ a, Service.respond settings.maxUnitLines c = .ok a ∧ a.status = 200 ∧
          e.Agrees p a.body) := by
  have hnodup := nodup_of_checkRepeats hshape
  obtain ⟨p, ha⟩ : ∃ p, h.assemble = .ok p := by
    rw [assemble, splice, hlength]
    exact ⟨_, rfl⟩
  have hp := hplain.program ha
  -- The counts in a listing are below the limit on lines, so a reader takes them.
  have hlegible : Json.Legible p.separatorIndex := by
    have hindex := separatorIndex_lt ha
    exact Settings.legible hsettings (by omega)
  have hassembled := Service.assemble_accepted hnodup ha hsize
  refine ⟨p, ha, ?_, ?_, ?_, ?_, ?_⟩
  · intro disk t request job path hstarted hasks hout
    exact Batch.run_shown disk hstarted hasks hout hnodup ha hp
  · intro disk t request job path hsited hstarted hasks hkept hended
    obtain ⟨files, hadds, hfiles⟩ :=
      Batch.run_saved disk hsited hstarted hasks hkept hnodup ha hended
    refine ⟨files, hadds, hfiles.imp ?_⟩
    intro key f hf
    exact Batch.agreesFor_of_writtenAs hlegible hf
  · intro t request job path hsited hstarted hasks hkept hformats hroomy
    exact Batch.run_room hsited hstarted hasks hkept hformats hroomy hnodup ha hp
  · intro c hposes
    exact ⟨_, _, Service.respond_assemble hposes hassembled hp, rfl,
      Service.read_compact_programValue hlegible, Service.programValue_agrees p⟩
  · intro c e hposes
    obtain ⟨a, hrespond, hstatus, hbody⟩ := Service.respond_emit e hposes hassembled ha hp
    exact ⟨a, hrespond, hstatus, hbody ▸ e.agrees_contentOf hlegible⟩

/-! ### One hand-off in all its outputs -/

/-- A hand-off with a line feed for its literal. -/
def feedHandoff : Handoff Text := ⟨["a", "b", "c"], ["\n"], "s"⟩

/-- The hand-off as JSON, the source under a given key. -/
def feedText (key : Text) : Text :=
  "\x7b\"" ++ key ++ "\":\"s\",\"instructions\":[\"a\",\"b\",\"c\"],\"literals\":[\"\\n\"]\x7d"

theorem feedText_encodes {key : Text} (hkey : [key, "instructions", "literals"].Nodup)
    (hself : key.all FrontEnd.standsForItself = true) :
    Json.Encodes (feedText key) (.object (feedHandoff.members key)) := by
  have hnone : Json.Spaces [] := nofun
  have htext : ∀ {n : Nat} {s : Text}, s.all FrontEnd.standsForItself = true →
      Json.Spells n _ (.value (.string s)) := fun h => .string (FrontEnd.spellsText_self h)
  have hfeed : ∀ {n : Nat}, Json.Spells n _ (.value (.string "\n")) :=
    .string (.short (e := CodePoint.ofChar 'n') (c := CodePoint.ofChar '\n') (by decide) .nil)
  have hpool : ∀ {n : Nat}, Json.Spells (n + 1) _ (.value (.array [.string "\n"])) :=
    .array hnone (.lastItem hfeed hnone)
  have hstream : ∀ {n : Nat},
      Json.Spells (n + 1) _ (.value (.array [.string "a", .string "b", .string "c"])) :=
    .array hnone (.item (htext (by decide)) hnone hnone (.item (htext (by decide)) hnone hnone
      (.lastItem (htext (by decide)) hnone)))
  have hmembers : ∀ {n : Nat}, Json.Spells (n + 1) _ (.members (feedHandoff.members key)) :=
    .member (htext hself) hnone hnone (htext (by decide)) hnone hnone
      (.member (htext (by decide)) hnone hnone hstream hnone hnone
        (.lastMember (htext (by decide)) hnone hnone hpool hnone))
  have hobject : ∀ {n : Nat}, Json.Spells (n + 2) _ (.value (.object _)) :=
    .object hnone hmembers
  have hdistinct : (([] ++ feedHandoff.members key).map Prod.fst).Nodup := hkey
  have hinsert := Json.foldl_insert [] hdistinct
  rw [List.nil_append] at hinsert
  rw [hinsert] at hobject
  refine ⟨[], _, [], hnone, hobject, hnone, ?_⟩
  simp [feedText, feedHandoff, Text.ofString]

/-- A directory with the document, and with a file under the first name for its program. -/
def feedTree : FileTree :=
  ⟨[(.ofNames ["w"], .directory),
    (.ofNames ["w", "p.json"], .file ((feedText "source").flatMap Utf8.bytesOf)),
    (.ofNames ["w", "p.ll"], .file [0x6F])], ["w"]⟩

def feedPath : Path := ⟨"/", ["w", "p.json"]⟩

/-- A request to show the program. -/
def showRequest : Request := ⟨["p.json"], .unsaid, .unsaid, .unsaid, true, .unsaid⟩

/-- A request to save the program and its listing. -/
def saveRequest : Request :=
  ⟨["p.json"], .unsaid, .value "plain_text,json_listing", .unsaid, false, .unsaid⟩

/-- A call with the hand-off. -/
def feedCall (path : Text) : Call :=
  ⟨"POST", path, some "application/json", (feedText "source_filename").flatMap Utf8.bytesOf⟩

theorem feed_asks {request : Request} (hinputs : request.inputs = ["p.json"])
    (hadapter : request.adapter = .unsaid) : Batch.Asks feedTree request feedPath feedHandoff := by
  refine ⟨⟨"p.json", hinputs, rfl⟩, Or.inr ⟨hadapter, by decide⟩, feedText "source",
    feedHandoff.members "source", ?_, feedText_encodes (by decide) (by decide),
    statedBy_members _ _ _⟩
  exact ⟨(feedText "source").flatMap Utf8.bytesOf, rfl, rfl⟩

theorem feed_poses {path : Text} {route : Route} (hroute : Route.ofPath? path = some route) :
    Service.Poses (feedCall path) route feedHandoff := by
  have hannounced : Body.isJson "application/json" = true := by decide +kernel
  exact ⟨rfl, hroute, hannounced, feedText "source_filename",
    feedHandoff.members "source_filename", rfl, feedText_encodes (by decide) (by decide),
    statedBy_members _ _ _⟩

theorem feed_roomy : Batch.Roomy Batch.bothFormats feedTree feedPath := by
  refine ⟨rfl, ?_⟩
  have hfits : ∀ e ∈ Emitter.all, ∀ k < 5,
      FileTree.exceeds FileTree.nameLimit (OutputName.candidate "p" e.suffix k) = false ∧
        FileTree.exceeds FileTree.pathLimit
          (Path.below ⟨"/", ["w"]⟩ (OutputName.candidate "p" e.suffix k)).text = false := by
    decide +kernel
  intro e k hk
  have hall : e ∈ Emitter.all := by cases e <;> decide
  obtain ⟨hshort, hnear⟩ := hfits e hall k hk
  exact ⟨hshort, hnear⟩

theorem outputs_agree_feed :
    Settings.ofEnvironment [] = .ok Batch.plainSettings ∧
    feedHandoff.checkRepeats = .ok feedHandoff ∧ checkLength feedHandoff.instructions = .ok () ∧
    feedHandoff.Plain ∧
    (feedHandoff.instructions.length + feedHandoff.literals.length : Nat)
      ≤ Batch.plainSettings.maxUnitLines ∧
    ∃ p, feedHandoff.assemble = .ok p ∧
      (Batch.run .sound Batch.plainSettings feedTree showRequest).1.stdout = p.text ∧
      (∃ files, feedTree.AddsUnder files
          (Batch.run .sound Batch.plainSettings feedTree saveRequest).1.tree ∧
        List.Forall₂ (Batch.AgreesFor Batch.bothFormats feedPath p)
          ["plain_text", "json_listing"] files) ∧
      (∃ a v, Service.respond 100000 (feedCall "/assemble") = .ok a ∧ a.status = 200 ∧
        Json.read a.body = .ok v ∧ v.Lists p.text ∧ v.Reports p) ∧
      (∃ a, Service.respond 100000 (feedCall "/assemble/plain_text") = .ok a ∧ a.status = 200 ∧
        a.body = p.text) := by
  have hsettings : Settings.ofEnvironment [] = .ok Batch.plainSettings := by rfl
  have hshape : feedHandoff.checkRepeats = .ok feedHandoff := rfl
  have hlength : checkLength feedHandoff.instructions = .ok () := rfl
  have hplain : feedHandoff.Plain := by
    refine ⟨Text.plain_of_all (by decide), ?_, ?_⟩
    · exact List.forall_mem_cons.mpr ⟨Text.plain_of_all (by decide), List.forall_mem_cons.mpr
        ⟨Text.plain_of_all (by decide), List.forall_mem_singleton.mpr
          (Text.plain_of_all (by decide))⟩⟩
    · exact List.forall_mem_singleton.mpr (Text.plain_of_all (by decide))
  have hsize : (feedHandoff.instructions.length + feedHandoff.literals.length : Nat)
      ≤ Batch.plainSettings.maxUnitLines := by decide
  obtain ⟨p, ha, hshown, hsaved, hroom, hlines, hwritten⟩ :=
    outputs_agree hsettings hshape hlength hplain hsize
  have hsited : feedTree.Sited := by
    intro n hn
    rw [List.mem_singleton.mp hn]
    decide
  have hshow : Batch.jobOf? Batch.plainSettings feedTree showRequest
      = some ⟨.unsaid, ["plain_text"], none, true⟩ := by decide +kernel
  have hsave : Batch.jobOf? Batch.plainSettings feedTree saveRequest = some Batch.bothFormats := by
    decide +kernel
  have hended := hroom _ _ _ _ hsited hsave (feed_asks rfl rfl) rfl (by decide) feed_roomy
  have hassemble : Route.ofPath? "/assemble" = some .assemble := by decide +kernel
  have hemit : Route.ofPath? "/assemble/plain_text" = some (.emit (Emitter.key .plainText)) := by
    decide +kernel
  exact ⟨hsettings, hshape, hlength, hplain, hsize, p, ha,
    (hshown _ _ _ _ _ hshow (feed_asks rfl rfl) rfl).1,
    hsaved _ _ _ _ _ hsited hsave (feed_asks rfl rfl) rfl hended,
    hlines _ (feed_poses hassemble), hwritten _ .plainText (feed_poses hemit)⟩

end Handoff

end LiteralSplice
