/-
What the service answers to a hand-off that is accepted.

* **`Service.assemble_accepted`**: a hand-off of the right shape, length and size is assembled;
* **`Service.respond_assemble`**: the answer with the merged lines and where the literals went;
* **`Service.respond_emit`**: the answer with what an emitter writes.

Design notes: an answer with a program without surrogates can always be sent.  Its body is made of
the texts of the program and of constants, and so is the name of a download, which is a part of the
name of the source.
-/
import LiteralSplice.Proofs.Renderings
import LiteralSplice.Proofs.Statements

namespace LiteralSplice

theorem Emitter.ofKey?_key (e : Emitter) : ofKey? e.key = some e := by
  cases e <;> decide

namespace Service

variable {c : Call} {h : Handoff Text} {p : Program Text} {limit : Int}

theorem assemble_accepted (hshape : h.literals.Nodup) (ha : h.assemble = .ok p)
    (hsize : (h.instructions.length + h.literals.length : Nat) ≤ limit) :
    assemble limit h = .ok p := by
  rw [assemble, if_neg (Int.not_lt.mpr hsize), Handoff.checkRepeats_of_nodup hshape]
  simp only [Except.mapError, bind, Except.bind, ha]

/-- A prepared answer whose body has bytes is sent. -/
theorem respond_of_prepare [Stack] {a : Answer} (hprepared : prepare limit c = .ok a)
    (hplain : Text.Plain a.body) : respond limit c = .ok a := by
  rw [respond, hprepared]
  simp only [bind, Except.bind, Utf8.surrogateRun?_eq_none.mpr hplain]
  rfl

theorem prepare_posed [Stack] {route : Route} (hposes : Poses c route h)
    (hmethod : route.method = "POST") : prepare limit c = answer limit c route := by
  rw [prepare, hposes.path]
  simp only [hposes.method, hmethod, if_true]

/-! ### The merged lines -/

/-- A program as it is answered. -/
def programValue (p : Program Text) : Json :=
  .object [("source_filename", .string p.source), ("lines", .array (p.lines.map .string)),
    ("literal_count", .int p.literalCount), ("separator_index", .int p.separatorIndex)]

theorem madeOf_programValue {good : Text → Prop} {fits : Nat → Prop}
    (hkeys : ∀ key ∈ (["source_filename", "lines", "literal_count", "separator_index"] : List Text),
      good key)
    (hsource : good p.source) (hlines : ∀ line ∈ p.lines, good line)
    (hcount : fits p.literalCount) (hindex : fits p.separatorIndex) :
    Json.MadeOf good fits (programValue p) := by
  simp only [List.forall_mem_cons] at hkeys
  obtain ⟨hs, hl, hc, hi, -⟩ := hkeys
  have hdistinct : (["source_filename", "lines", "literal_count", "separator_index"] :
    List Text).Nodup := by decide
  refine .object hdistinct ?_ ?_
  · exact List.forall_mem_cons.mpr ⟨hs, List.forall_mem_cons.mpr ⟨hl,
      List.forall_mem_cons.mpr ⟨hc, List.forall_mem_singleton.mpr hi⟩⟩⟩
  · exact List.forall_mem_cons.mpr ⟨.string hsource, List.forall_mem_cons.mpr
      ⟨.strings hlines, List.forall_mem_cons.mpr ⟨.count hcount,
        List.forall_mem_singleton.mpr (.count hindex)⟩⟩⟩

theorem plain_compact_programValue (hp : p.Plain) : Text.Plain (programValue p).compact := by
  have hmade : Json.MadeOf Text.Plain (fun _ => True) (programValue p) := by
    refine madeOf_programValue ?_ hp.source hp.lines trivial trivial
    simp only [List.forall_mem_cons]
    exact ⟨Text.plain_of_all (by decide), Text.plain_of_all (by decide),
      Text.plain_of_all (by decide), Text.plain_of_all (by decide), nofun⟩
  exact hmade.plain_write (Text.plain_of_all (by decide)) 0

theorem depth_programValue (p : Program Text) : (programValue p).depth = 2 := by
  simp [programValue, Json.depth, Json.membersDepth]

theorem read_compact_programValue [Stack] (hlegible : Json.Legible p.separatorIndex) :
    Json.read (programValue p).compact = .ok (programValue p) := by
  have hcount : Json.Legible p.literalCount :=
    (Text.length_ofNat_mono (Nat.le_add_left _ _)).trans hlegible
  have hmade : Json.MadeOf (fun _ => True) Json.Legible (programValue p) :=
    madeOf_programValue (fun _ _ => trivial) trivial (fun _ _ => trivial) hcount hlegible
  exact hmade.read_compact (Stack.le_levels (by rw [depth_programValue]; decide))

/-- No text of a program without surrogates keeps the answer from being sent. -/
theorem programAnswer_plain (hp : p.Plain) :
    programAnswer p = .ok (Answer.json 200 (programValue p)) := by
  have hnone : (p.source :: p.lines).findSome? Utf8.surrogateRun? = none := by
    rw [List.findSome?_eq_none_iff, List.forall_mem_cons]
    refine ⟨Utf8.surrogateRun?_eq_none.mpr hp.source, ?_⟩
    intro line hline
    exact Utf8.surrogateRun?_eq_none.mpr (hp.lines line hline)
  simp only [programAnswer, hnone]
  rfl

/-- A hand-off that is accepted is answered with its program. -/
theorem respond_assemble [Stack] (hposes : Poses c .assemble h)
    (hassembled : assemble limit h = .ok p) (hp : p.Plain) :
    respond limit c = .ok (Answer.json 200 (programValue p)) := by
  have hprepared : prepare limit c = .ok (Answer.json 200 (programValue p)) := by
    rw [prepare_posed hposes rfl, answer]
    simp only [handoff_posed hposes, assembleAnswer, hassembled, programAnswer_plain hp]
  exact respond_of_prepare hprepared (plain_compact_programValue hp)

/-! ### Downloads -/

theorem plain_downloadName {source suffix : Text} (hsource : source.Plain)
    (hsuffix : suffix.Plain) : Text.Plain (downloadName source suffix) := by
  have hstem : Text.Plain (Path.ofText source).stem := by
    intro x hx
    have hname := Path.mem_of_mem_splitSuffix hx
    -- A character of the name is in one of the pieces of the source.
    rcases hlast : (Path.ofText source).names.getLast? with _ | last
    · rw [Path.name, hlast] at hname
      cases hname
    · rw [Path.name, hlast] at hname
      have hpiece := (List.mem_filter.mp (List.mem_of_getLast? hlast)).1
      by_cases hslash : x = CodePoint.ofChar '/'
      · rw [hslash]
        rfl
      · exact hsource x ((Text.mem_split hslash).mp ⟨last, hpiece, hname⟩)
  rw [downloadName]
  split
  · exact Text.Plain.append (Text.plain_of_all (by decide)) hsuffix
  · exact hstem.append hsuffix

/-- What an emitter writes for a program without surrogates can be downloaded under a name that is
made of its source. -/
theorem download_plain (hp : p.Plain) (e : Emitter) :
    ∃ header, Disposition.header (downloadName p.source e.suffix) = .ok header ∧
      download p.source ⟨e.suffix, e.contentOf p, e.mediaType⟩
        = .ok ⟨200, contentType e.mediaType, some header, none, e.contentOf p⟩ := by
  have hsuffix : Text.Plain e.suffix := by
    cases e <;> exact Text.plain_of_all (by decide)
  obtain ⟨bytes, hbytes⟩ : ∃ bytes, Utf8.encode (downloadName p.source e.suffix) = .ok bytes :=
    ⟨_, Utf8.encode_ok.mpr ⟨plain_downloadName hp.source hsuffix, rfl⟩⟩
  obtain ⟨header, hheader⟩ : ∃ header,
      Disposition.header (downloadName p.source e.suffix) = .ok header := by
    rw [Disposition.header, hbytes]
    exact ⟨_, rfl⟩
  refine ⟨header, hheader, ?_⟩
  rw [download, hheader]
  rfl

/-- A hand-off that is accepted is answered with what the emitter writes for its program. -/
theorem respond_emit [Stack] (e : Emitter) (hposes : Poses c (.emit e.key) h)
    (hassembled : assemble limit h = .ok p) (ha : h.assemble = .ok p) (hp : p.Plain) :
    ∃ a, respond limit c = .ok a ∧ a.status = 200 ∧ a.body = e.contentOf p := by
  obtain ⟨header, -, hdownload⟩ := download_plain hp e
  have hprepared : prepare limit c
      = .ok ⟨200, contentType e.mediaType, some header, none, e.contentOf p⟩ := by
    rw [prepare_posed hposes rfl, answer]
    simp only [handoff_posed hposes, emitAnswer, Emitter.ofKey?_key, hassembled,
      e.render_assembled ha, hdownload]
  exact ⟨_, respond_of_prepare hprepared (Emitter.plain_contentOf hp e), rfl, rfl⟩

end Service

end LiteralSplice
