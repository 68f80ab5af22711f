/-
Sources whose files change while they are asked.

* **`Source.Holds`**: the files of a source hold a hand-off as they are now;
* **`Source.respond_held`**, **`Source.respond_unheld`**, **`Source.respond_kept`**: the answers of
  a source whose files are good, whose files are not, and of one that has been read;
* **`Session`**: a source and the files around it, with everything that can happen to either;
* **`Session.run_source`**, **`Session.run_ask`**: questions that the files cannot answer leave no
  trace;
* **`Session.First.keeps`**: the first question that they can answer settles what is kept;
* **`Session.run_snapshot`**: so all that comes from a source comes from one state of its files.

Design notes: what has happened is told by the list of events alone.  The first hand-off is the one
that the files held at the first question for which they held any, whatever happened to them before
and whatever happens to them later.
-/
import LiteralSplice.Source
import Mathlib.Data.List.Induction

namespace LiteralSplice

namespace Source

variable [Stack]

/-! ### Questions and answers -/

/-- What can be asked of a source. -/
inductive Question where
  | sourceName
  | instructions
  | literals
  | handoff
  deriving DecidableEq, Repr

/-- Whether a question can only be answered from the files. -/
def Question.reads : Question → Bool
  | .sourceName => false
  | _ => true

omit [Stack] in
theorem Question.eq_sourceName {q : Question} (hq : ¬ q.reads = true) : q = .sourceName := by
  cases q with
  | sourceName => rfl
  | _ => exact absurd rfl hq

/-- What comes of a question. -/
inductive Response where
  | name (source : Text)
  | lines (lines : List Text)
  | handoff (h : Handoff Text)
  | failed (fault : SourceFault)

/-- The answer as a response, or the fault. -/
def Response.ofExcept {α : Type} (respond : α → Response) : Except SourceFault α → Response
  | .ok a => respond a
  | .error fault => .failed fault

/-- The response of a source to a question, and the source after it. -/
def respond (t : FileTree) (s : Source) : Question → Response × Source
  | .sourceName => (.name s.sourceName, s)
  | .instructions => (.ofExcept .lines (s.instructions t).answer, (s.instructions t).source)
  | .literals => (.ofExcept .lines (s.literals t).answer, (s.literals t).source)
  | .handoff => (.ofExcept .handoff (s.handoff t).answer, (s.handoff t).source)

/-- The response that a hand-off gives to a question. -/
def Response.from (h : Handoff Text) : Question → Response
  | .sourceName => .name h.source
  | .instructions => .lines h.instructions
  | .literals => .lines h.literals
  | .handoff => Response.ofExcept .handoff (h.checkRepeats.mapError .misshapen)

/-! ### What the files hold -/

/-- A file of a listing holds records. -/
def Lists (t : FileTree) (path : Path) (records : List Text) : Prop :=
  ∃ bytes, t.read path.text = .ok bytes ∧ Records.ofBytes bytes = .ok records

/-- The files of a source that has not been read hold a hand-off. -/
inductive Holds (t : FileTree) : Source → Handoff Text → Prop
  | document {path bytes d} (hread : t.read path.text = .ok bytes)
      (hd : Document.ofBytes bytes = .ok d) :
      Holds t (.document path none) ⟨d.instructions, d.literals.getD [], d.source.getD path.name⟩
  | instructions {stem path records} (h : Lists t path records) :
      Holds t (.listing ⟨stem, some path, none⟩ none) ⟨records, [], stem ++ (".text" : Text)⟩
  | companions {stem path path' records records'} (h : Lists t path records)
      (h' : Lists t path' records') :
      Holds t (.listing ⟨stem, some path, some path'⟩ none)
        ⟨records, records'.filter fun t => !t.isBlank, stem ++ (".text" : Text)⟩

/-- A source has not been read. -/
def Unread : Source → Prop
  | document _ read => read = none
  | listing _ read => read = none

/-- A source has been read and keeps a hand-off. -/
def Keeps (s : Source) (h : Handoff Text) : Prop :=
  s.contents = h ∧ ∀ t, s.load t = .ok (s, [])

variable {t : FileTree} {s : Source} {h : Handoff Text} {q : Question}

omit [Stack] in
theorem source_contents (s : Source) : s.contents.source = s.sourceName := by
  rcases s with ⟨path, _ | d⟩ | ⟨files, _ | lines⟩ <;> rfl

omit [Stack] in
theorem mapError_eq_ok {ε ε' α : Type} {x : Except ε α} {f : ε → ε'} {a : α} :
    x.mapError f = .ok a ↔ x = .ok a := by
  cases x <;> simp [Except.mapError]

omit [Stack] in
theorem bind_eq_ok {ε α β : Type} {x : Except ε α} {f : α → Except ε β} {b : β} :
    (x >>= f) = .ok b ↔ ∃ a, x = .ok a ∧ f a = .ok b := by
  cases x <;> simp [bind, Except.bind]

theorem load_document_iff {path : Path} {d : Document} :
    Document.load t path = .ok d ↔
      ∃ bytes, t.read path.text = .ok bytes ∧ Document.ofBytes bytes = .ok d := by
  simp only [Document.load, bind_eq_ok, mapError_eq_ok]

omit [Stack] in
theorem load_records_iff {path : Path} {records : List Text} :
    Records.load t path.text = .ok records ↔ Lists t path records := by
  simp only [Records.load, bind_eq_ok, mapError_eq_ok, Lists]

/-- The files of a source hold a hand-off exactly if reading them comes to keeping it. -/
theorem holds_iff (hs : s.Unread) :
    Holds t s h ↔ ∃ loaded notices, s.load t = .ok (loaded, notices) ∧ loaded.Keeps h := by
  constructor
  · intro hh
    cases hh with
    | @document path bytes d hread hd =>
      have hload : Document.load t path = .ok d := load_document_iff.mpr ⟨bytes, hread, hd⟩
      exact ⟨.document path (some d), _, by rw [load, hload]; rfl, rfl, fun _ => rfl⟩
    | @instructions stem path records hlists =>
      have hload : Companions.load t ⟨stem, some path, none⟩ = .ok ⟨records, []⟩ := by
        simp only [Companions.load, bind_eq_ok, mapError_eq_ok]
        exact ⟨records, load_records_iff.mpr hlists, rfl⟩
      exact ⟨.listing _ (some ⟨records, []⟩), _, by rw [load, hload]; rfl, rfl, fun _ => rfl⟩
    | @companions stem path path' records records' hlists hlists' =>
      have hload : Companions.load t ⟨stem, some path, some path'⟩
          = .ok ⟨records, Records.nonblank records'⟩ := by
        simp only [Companions.load, bind_eq_ok, mapError_eq_ok]
        exact ⟨records, load_records_iff.mpr hlists, records', load_records_iff.mpr hlists', rfl⟩
      exact ⟨.listing _ (some ⟨records, Records.nonblank records'⟩), _, by rw [load, hload]; rfl,
        rfl, fun _ => rfl⟩
  · rintro ⟨loaded, notices, hload, rfl, -⟩
    rcases s with ⟨path, read⟩ | ⟨⟨stem, path?, path'?⟩, read⟩
    · obtain rfl : read = none := hs
      simp only [load, bind_eq_ok] at hload
      obtain ⟨d, hd, heq⟩ := hload
      cases heq
      obtain ⟨bytes, hread, hd⟩ := load_document_iff.mp hd
      exact .document hread hd
    · obtain rfl : read = none := hs
      simp only [load, bind_eq_ok] at hload
      obtain ⟨lines, hlines, heq⟩ := hload
      cases heq
      rcases path? with _ | path
      · cases hlines
      simp only [Companions.load, bind_eq_ok, mapError_eq_ok] at hlines
      obtain ⟨records, hrecords, hlines⟩ := hlines
      rcases path'? with _ | path'
      · cases hlines
        exact .instructions (load_records_iff.mp hrecords)
      · simp only [bind_eq_ok, mapError_eq_ok] at hlines
        obtain ⟨records', hrecords', heq⟩ := hlines
        cases heq
        exact .companions (load_records_iff.mp hrecords) (load_records_iff.mp hrecords')

omit [Stack] in
/-- What is opened under a path: a document, or the files of a listing that are there then. -/
theorem openAs_cases {path : Path} {kind : SourceKind} (hopen : openAs t path kind = .ok s) :
    (kind = .document ∧ s = .document path none) ∨
      kind = .listing ∧ ∃ files, Companions.resolve t path = .ok files ∧
        s = .listing files none := by
  cases kind with
  | document => exact .inl ⟨rfl, (Except.ok.inj hopen).symm⟩
  | listing =>
    simp only [openAs, bind_eq_ok, mapError_eq_ok] at hopen
    obtain ⟨files, hfiles, heq⟩ := hopen
    exact .inr ⟨rfl, files, hfiles, (Except.ok.inj heq).symm⟩

/-- A source that has been loaded keeps its contents. -/
theorem keeps_of_load {loaded : Source} {notices : List Notice}
    (hload : s.load t = .ok (loaded, notices)) : loaded.Keeps loaded.contents := by
  refine ⟨rfl, ?_⟩
  rcases s with ⟨path, _ | d⟩ | ⟨files, _ | lines⟩
  · simp only [load, bind_eq_ok] at hload
    obtain ⟨d, -, heq⟩ := hload
    cases heq
    exact fun _ => rfl
  · cases hload
    exact fun _ => rfl
  · simp only [load, bind_eq_ok] at hload
    obtain ⟨lines, -, heq⟩ := hload
    cases heq
    exact fun _ => rfl
  · cases hload
    exact fun _ => rfl

/-- Without a file of instructions the files of a listing never hold a hand-off. -/
theorem not_holds_of_unlisted {files : Companions} (hnone : files.instructions = none)
    (t : FileTree) (h : Handoff Text) : ¬ Holds t (.listing files none) h := by
  intro hh
  cases hh <;> cases hnone

/-! ### One question -/

theorem respond_name (t : FileTree) (s : Source) :
    respond t s .sourceName = (.name s.sourceName, s) := rfl

/-- What comes of a question when the source is loaded. -/
theorem respond_of_load {loaded : Source} {notices : List Notice}
    (hload : s.load t = .ok (loaded, notices)) (hq : q.reads = true) :
    respond t s q = (Response.from loaded.contents q, loaded) := by
  cases q with
  | sourceName => cases hq
  | instructions => simp only [respond, Source.instructions, ask, hload]; rfl
  | literals => simp only [respond, Source.literals, ask, hload]; rfl
  | handoff => simp only [respond, Source.handoff, ask, hload]; rfl

/-- A question to files that hold a hand-off is answered from it, and the source keeps it. -/
theorem respond_held (hs : s.Unread) (hh : Holds t s h) (hq : q.reads = true) :
    ∃ kept, respond t s q = (Response.from h q, kept) ∧ kept.Keeps h := by
  obtain ⟨loaded, notices, hload, hkeeps⟩ := (holds_iff hs).mp hh
  refine ⟨loaded, ?_, hkeeps⟩
  rw [respond_of_load hload hq, hkeeps.1]

/-- A question to files that hold none fails, and the source stays what it was. -/
theorem respond_unheld (hs : s.Unread) (hnone : ∀ h, ¬ Holds t s h) (hq : q.reads = true) :
    ∃ fault, respond t s q = (.failed fault, s) := by
  rcases hload : s.load t with fault | ⟨loaded, notices⟩
  · refine ⟨fault, ?_⟩
    cases q with
    | sourceName => cases hq
    | instructions => simp only [respond, Source.instructions, ask, hload]; rfl
    | literals => simp only [respond, Source.literals, ask, hload]; rfl
    | handoff => simp only [respond, Source.handoff, ask, hload]; rfl
  · exact absurd ((holds_iff hs).mpr ⟨loaded, notices, hload, keeps_of_load hload⟩) (hnone _)

/-- A source that keeps a hand-off answers from it whatever the files are. -/
theorem respond_kept (hk : s.Keeps h) (t : FileTree) (q : Question) :
    respond t s q = (Response.from h q, s) := by
  by_cases hq : q.reads = true
  · rw [respond_of_load (hk.2 t) hq, hk.1]
  · rw [Question.eq_sourceName hq, respond_name, ← source_contents, hk.1]
    rfl

end Source

/-! ### Sessions -/

/-- What happens to a source and to the files around it. -/
inductive Session.Event where
  | write (path : Text) (content : Bytes)
  | remove (path : Text)
  | makeDirectory (path : Path)
  | ask (q : Source.Question)

/-- A source and the files around it. -/
structure Session where
  tree : FileTree
  source : Source

namespace Session

open Source (Question Response Holds respond)

section

variable [Stack]

/-- The session after an event.  A change that the system refuses is none; directories made on the
way to one that cannot be made stay. -/
def step (S : Session) : Event → Session
  | .write path content => { S with tree := (S.tree.write path content).toOption.getD S.tree }
  | .remove path => { S with tree := (S.tree.remove path).toOption.getD S.tree }
  | .makeDirectory path => { S with tree := (S.tree.makeDirectory path).1 }
  | .ask q => { S with source := (respond S.tree S.source q).2 }

/-- The session after events, one after the other. -/
def run (S : Session) (es : List Event) : Session := es.foldl step S

/-- No question among the events found files that held a hand-off. -/
def Unanswered (S : Session) (es : List Event) : Prop :=
  ∀ before q after, es = before ++ .ask q :: after → q.reads = true →
    ∀ h, ¬ Holds (S.run before).tree S.source h

/-- The first question among the events for which the files held a hand-off found this one. -/
def First (S : Session) (es : List Event) (h : Handoff Text) : Prop :=
  ∃ before q after, es = before ++ .ask q :: after ∧ q.reads = true ∧ S.Unanswered before ∧
    Holds (S.run before).tree S.source h

variable {S : Session} {es : List Event} {e : Event} {h : Handoff Text}

@[simp] theorem run_nil (S : Session) : S.run [] = S := rfl

theorem run_append (S : Session) (es es' : List Event) : S.run (es ++ es') = (S.run es).run es' :=
  List.foldl_append

theorem run_concat (S : Session) (es : List Event) (e : Event) :
    S.run (es ++ [e]) = (S.run es).step e := by
  rw [run_append]
  rfl

theorem First.append (hfirst : S.First es h) (es' : List Event) : S.First (es ++ es') h := by
  obtain ⟨before, q, after, rfl, hq, hbefore, hh⟩ := hfirst
  exact ⟨before, q, after ++ es', by simp, hq, hbefore, hh⟩

theorem unanswered_nil (S : Session) : S.Unanswered [] :=
  fun before q after heq => by simp at heq

theorem Unanswered.of_append {es' : List Event} (hes : S.Unanswered (es ++ es')) :
    S.Unanswered es := by
  intro before q after heq
  exact hes before q (after ++ es') (by rw [heq, List.append_assoc, List.cons_append])

/-- One more event leaves all questions unanswered if it is none that the files could answer. -/
theorem unanswered_concat :
    S.Unanswered (es ++ [e]) ↔ S.Unanswered es ∧
      ∀ q, e = .ask q → q.reads = true → ∀ h, ¬ Holds (S.run es).tree S.source h := by
  constructor
  · intro hes
    exact ⟨hes.of_append, fun q he => hes es q [] (by rw [he])⟩
  · rintro ⟨hes, he⟩ before q after heq hq
    rcases List.eq_nil_or_concat after with rfl | ⟨after, e', rfl⟩
    · obtain ⟨rfl, hlast⟩ := List.append_inj' heq rfl
      exact he q (List.cons.inj hlast).1 hq
    · have heq : es ++ [e] = (before ++ .ask q :: after) ++ [e'] := by simpa using heq
      exact hes before q after (List.append_inj' heq rfl).1 hq

/-- Of the questions among any events none was answered, or there is a first. -/
theorem unanswered_or_first (S : Session) (es : List Event) :
    S.Unanswered es ∨ ∃ h, S.First es h := by
  -- By induction on what has happened so far: only the last event can be the first one answered.
  induction es using List.reverseRecOn with
  | nil => exact .inl (unanswered_nil S)
  | append_singleton es e ih =>
    rcases ih with hes | ⟨h, hfirst⟩
    · by_cases he : ∀ q, e = .ask q → q.reads = true → ∀ h, ¬ Holds (S.run es).tree S.source h
      · exact .inl (unanswered_concat.mpr ⟨hes, he⟩)
      · push Not at he
        obtain ⟨q, rfl, hq, h, hh⟩ := he
        exact .inr ⟨h, es, q, [], rfl, hq, hes, hh⟩
    · exact .inr ⟨h, hfirst.append [e]⟩

/-- An event that the files give no answer to leaves a source as it is. -/
theorem step_source (hs : S.source.Unread)
    (he : ∀ q, e = .ask q → q.reads = true → ∀ h, ¬ Holds S.tree S.source h) :
    (S.step e).source = S.source := by
  cases e with
  | ask q =>
    by_cases hq : q.reads = true
    · obtain ⟨fault, hfault⟩ := Source.respond_unheld hs (he q rfl hq) hq
      exact congrArg Prod.snd hfault
    · rw [Question.eq_sourceName hq]
      rfl
  | _ => rfl

/-- As long as no question is answered a source is what it was. -/
theorem run_source (hs : S.source.Unread) (hes : S.Unanswered es) :
    (S.run es).source = S.source := by
  induction es using List.reverseRecOn with
  | nil => rfl
  | append_singleton es e ih =>
    obtain ⟨hes, he⟩ := unanswered_concat.mp hes
    have hsource : (S.run es).source = S.source := ih hes
    rw [run_concat, step_source (hsource ▸ hs) (hsource ▸ he), hsource]

/-- A question that is not answered might as well not have been asked. -/
theorem run_ask {q : Question} (hs : S.source.Unread) (hes : S.Unanswered (es ++ [.ask q]))
    (later : List Event) : S.run (es ++ .ask q :: later) = S.run (es ++ later) := by
  have hsource : (S.run (es ++ [.ask q])).source = (S.run es).source :=
    (run_source hs hes).trans (run_source hs hes.of_append).symm
  -- A question never changes a file, so only the source could tell the two runs apart.
  have hask : S.run (es ++ [.ask q]) = S.run es := by
    rw [run_concat] at hsource ⊢
    exact congrArg (Session.mk (S.run es).tree) hsource
  rw [List.append_cons, run_append, hask, ← run_append]

/-- What keeps a hand-off keeps it through any events. -/
theorem run_keeps (hk : S.source.Keeps h) (es : List Event) : (S.run es).source = S.source := by
  induction es using List.reverseRecOn with
  | nil => rfl
  | append_singleton es e ih =>
    rw [run_concat]
    cases e with
    | ask q => exact (congrArg Prod.snd (Source.respond_kept (ih ▸ hk) (S.run es).tree q)).trans ih
    | _ => exact ih

/-- From the first question that is answered a source keeps what the files held then. -/
theorem First.keeps (hs : S.source.Unread) (hfirst : S.First es h) :
    (S.run es).source.Keeps h := by
  obtain ⟨before, q, after, rfl, hq, hbefore, hh⟩ := hfirst
  -- The source is what it was until that question, and what it keeps then stays.
  have hsource : (S.run before).source = S.source := run_source hs hbefore
  obtain ⟨kept, hkept, hk⟩ := Source.respond_held hs hh hq
  have hstep : ((S.run before).step (.ask q)).source = kept := by
    simp only [step, hsource, hkept]
  rw [List.append_cons, run_append, run_concat, run_keeps (hstep ▸ hk), hstep]
  exact hk

/-! ### One state of the files -/

/-- **All that comes from a source comes from one state of its files.**  A source that has been
opened reads its files at most once with success.  Questions that the files give no answer to fail
and might as well not have been asked.  Once the files hold a hand-off, the first question that they
are read for and all that come after it are answered from that hand-off, whatever happens to the
files. -/
theorem run_snapshot {path : Path} {kind : SourceKind}
    (hopen : Source.openAs S.tree path kind = .ok S.source) :
    -- what has been opened, and what it is called
    ((kind = .document ∧ S.source = .document path none ∧ S.source.sourceName = path.name) ∨
      kind = .listing ∧ ∃ files, Companions.resolve S.tree path = .ok files ∧
        S.source = .listing files none ∧ S.source.sourceName = files.stem ++ (".text" : Text) ∧
        (files.instructions = none → ∀ t h, ¬ Holds t S.source h)) ∧
    -- every sequence of events is of one of two sorts
    (∀ es, S.Unanswered es ∨ ∃ h, S.First es h) ∧
    -- before the files have been read
    (∀ es, S.Unanswered es →
      (S.run es).source = S.source ∧
      (∀ t, respond t S.source .sourceName = (.name S.source.sourceName, S.source)) ∧
      (∀ t q h, q.reads = true → Holds t S.source h → (respond t S.source q).1 = .from h q) ∧
      ∀ t q, q.reads = true → (∀ h, ¬ Holds t S.source h) →
        ∃ fault, respond t S.source q = (.failed fault, S.source)) ∧
    (∀ es q later, S.Unanswered (es ++ [.ask q]) →
      S.run (es ++ .ask q :: later) = S.run (es ++ later)) ∧
    -- and afterwards
    ∀ es h, S.First es h → ∀ t q,
      respond t (S.run es).source q = (.from h q, (S.run es).source) := by
  have hopened := Source.openAs_cases hopen
  have hs : S.source.Unread := by
    rcases hopened with ⟨-, heq⟩ | ⟨-, files, -, heq⟩ <;> rw [heq] <;> rfl
  refine ⟨?_, unanswered_or_first S, ?_, ?_, ?_⟩
  · rcases hopened with ⟨hkind, heq⟩ | ⟨hkind, files, hfiles, heq⟩
    · exact .inl ⟨hkind, heq, by rw [heq]; rfl⟩
    · refine .inr ⟨hkind, files, hfiles, heq, by rw [heq]; rfl, ?_⟩
      rw [heq]
      exact Source.not_holds_of_unlisted
  · intro es hes
    refine ⟨run_source hs hes, fun t => rfl, ?_, ?_⟩
    · intro t q h hq hh
      obtain ⟨kept, hkept, -⟩ := Source.respond_held hs hh hq
      rw [hkept]
    · intro t q hq hnone
      exact Source.respond_unheld hs hnone hq
  · intro es q later hes
    exact run_ask hs hes later
  · intro es h hfirst
    exact Source.respond_kept (hfirst.keeps hs)

end

/-- Three states of the file of instructions of a listing, with a question after each. -/
def overwritten : List Event :=
  [.write "q.text" [0xff], .ask .handoff, .write "q.text" [0x61], .ask .literals,
    .remove "q.text", .ask .instructions]

/-- The listing is good only when it is asked for the second time, and is answered from that state
after its file has gone. -/
theorem run_snapshot_overwritten :
    let path : Path := ⟨[], ["q.text"]⟩
    let S : Session :=
      ⟨⟨[(.ofNames ["q.text"], .file [])], []⟩, .listing ⟨"q", some path, none⟩ none⟩
    Source.openAs S.tree path .listing = .ok S.source ∧
      S.First overwritten ⟨["a"], [], "q.text"⟩ ∧
      ∀ t, (respond t (S.run overwritten).source .instructions).1 = .lines ["a"] := by
  intro path S
  have hopen : Source.openAs S.tree path .listing = .ok S.source := by
    have hresolve : Companions.resolve S.tree path = .ok ⟨"q", some path, none⟩ := by
      decide +kernel
    rw [Source.openAs, hresolve]
    rfl
  have hbad : ∀ h, ¬ Holds (S.run [.write "q.text" [0xff]]).tree S.source h := by
    intro h hh
    cases hh with
    | instructions hlists =>
      obtain ⟨bytes, hread, hbytes⟩ := hlists
      have hread' : (S.run [.write "q.text" [0xff]]).tree.read path.text = .ok [0xff] := by
        decide +kernel
      obtain rfl : [0xff] = bytes := Except.ok.inj (hread'.symm.trans hread)
      cases hbytes
  have hwrite : S.Unanswered ([] ++ [.write "q.text" [0xff]]) :=
    unanswered_concat.mpr ⟨unanswered_nil S, nofun⟩
  have hask : S.Unanswered ([.write "q.text" [0xff]] ++ [.ask .handoff]) :=
    unanswered_concat.mpr ⟨hwrite, fun _ _ _ => hbad⟩
  have hbefore : S.Unanswered
      ([.write "q.text" [0xff], .ask .handoff] ++ [.write "q.text" [0x61]]) :=
    unanswered_concat.mpr ⟨hask, nofun⟩
  have hfirst : S.First overwritten ⟨["a"], [], "q.text"⟩ := by
    refine ⟨_, .literals, [.remove "q.text", .ask .instructions], rfl, rfl, hbefore, ?_⟩
    exact .instructions ⟨[0x61], by decide +kernel, by decide +kernel⟩
  refine ⟨hopen, hfirst, fun t => ?_⟩
  rw [(run_snapshot hopen).2.2.2.2 overwritten _ hfirst t .instructions]
  rfl

end Session

end LiteralSplice
